import CondAttrs.Proofs.Files.Copy
import CondAttrs.Proofs.Files.Select
import Mathlib

/-!
# Checking and writing agree

The expansion command is run twice on the same tree: once to check, and once to write its output
below a path at which there is nothing yet. Both runs do the same up to the point where they have
the list of files. From there on the checking run only prints, and the writing run writes below its
path only, so that both read the same texts.

This takes files that are inside the input. A pattern can climb out of it, and then the writing run
may change a file that it reads later.

## Main definitions

* `ExpandCommand.prepare`, `ExpandCommand.perform`: the command up to its files, and from there on.
* `ExpandCommand.Review`: a file, its text and the expansion of it.
* `ExpandCommand.Agreement`: what the two runs have to do with one another.

## Main statements

* `ExpandCommand.exec_checkAll`, `ExpandCommand.exec_writeAll`: the two runs over the files.
* `ExpandCommand.check_agrees`: checking and writing agree.
* `ExpandCommand.check_disagrees_climbing`: they need not agree about files outside the input.
-/

namespace CondAttrs

open Node

namespace ExpandCommand

/-! ## Preparation -/

/-- What the command has to do: its settings, its input and the files in order. -/
structure Job where
  /-- The settings. -/
  settings : Settings
  /-- The file or folder to expand. -/
  input : Path
  /-- What the input is. -/
  kind : EntryKind
  /-- The files to expand. -/
  files : List Path

/-- The part of the command that comes before the first file is read. It does not depend on where
the output goes, nor on whether the files are only checked. -/
def prepare (o : Options) : Step (StateM World) Job := do
  let s ← loadSettings o.config
  if !(o.arguments.getD []).isEmpty && !o.item then
    Step.refuse "E_ARGS_REQUIRES_ITEM: --args is only valid with --item"
  let input ← Step.valued inputOption o.input
  match ← Step.kind? input with
  | none => Step.refuse ("E_INPUT_NOT_FOUND: " ++ input.text)
  | some kind =>
    let files ← sources input kind s.suffix
    if files.isEmpty then
      Step.refuse ("E_INPUT_NOT_FOUND: no " ++ s.suffix ++ " files under " ++ input.text)
    return ⟨s, input, kind, files⟩

/-- The part of the command that goes through the files. -/
def perform (o : Options) (job : Job) : Step (StateM World) Nat := do
  if ← expandAll o job.settings job.input job.kind job.files then return 0 else return 2

theorem refuse_bind {α β : Type} (message : Text) (f : α → Step (StateM World) β) :
    (Step.refuse message >>= f) = Step.refuse message := by
  simp only [Step.refuse, bind_assoc]
  rfl

/-- If the files are checked, or there is a place for the output, the command has two parts. -/
theorem steps_eq {o : Options} (h : o.check = true ∨ o.out.isSome = true) :
    steps o = prepare o >>= perform o := by
  have hout : ∀ b, (b && o.out.isNone && !o.check) = false := by
    intro b
    rcases h with h | h
    · simp [h]
    · simp [Option.isNone_eq_false_iff.2 h]
  simp only [steps, prepare, bind_assoc]
  congr 1
  funext s
  split
  · simp only [refuse_bind]
  simp only [bind_assoc, hout]
  congr 1
  funext input
  congr 1
  funext kind
  cases kind with
  | none => exact (refuse_bind _ _).symm
  | some kind =>
    simp only [bind_assoc]
    congr 1
    funext files
    split
    · simp only [refuse_bind]
    · simp only [pure_bind]
      rfl

section

variable {w : World} {α : Type} {P : α → Prop}

theorem exec_refuse (w : World) (message : Text) :
    w.exec (Step.refuse message : Step (StateM World) α) =
      (.error (.exited 2), { w with errors := w.errors ++ (message ++ "\n") }) := rfl

theorem exec_read {path : Path} {t : Text} (h : w.read path = .ok t) :
    w.exec (Step.read path) = (.ok (Text.unifyNewlines t), w) := by
  have hread : (Host.read path : StateM World _) w = (.ok t, w) := congrArg (·, w) h
  rw [Step.read, World.exec_bind_ok (exec_orCrash_ok hread)]
  rfl

/-- The ending of a command that has not come to its files. -/
def Stopped (ending : Outcome) : Prop :=
  ending ≠ .exited 0

theorem stopped_crashed (cause : Crash) : Stopped (.crashed cause) := nofun

theorem asks_refuse (message : Text) :
    w.Asks (Step.refuse message : Step (StateM World) α) Stopped P :=
  .inr ⟨_, _, exec_refuse w message, nofun⟩

theorem asks_valued (option : Usage.Spec) (value : Option α) :
    w.Asks (Step.valued option value : Step (StateM World) α) Stopped fun a => value = some a := by
  cases value with
  | some a => exact World.asks_pure rfl
  | none => exact World.asks_throw (stopped_crashed _)

theorem asks_read (path : Path) :
    w.Asks (Step.read path : Step (StateM World) Text) Stopped fun _ => True := by
  cases h : w.read path with
  | ok t => exact .inl ⟨_, exec_read h, trivial⟩
  | error e =>
    have hread : (Host.read path : StateM World _) w = (.error e, w) := congrArg (·, w) h
    refine .inr ⟨.crashed (.file e), w.errors, ?_, stopped_crashed _⟩
    rw [Step.read, World.exec_bind_error (exec_orCrash_error hread)]

end

theorem asks_loadSettings (w : World) (config : Option Path) :
    w.Asks (loadSettings config : Step (StateM World) Settings) Stopped fun _ => True := by
  cases config with
  | none => exact World.asks_pure trivial
  | some path =>
    rw [loadSettings]
    refine (asks_stepKind? w path stopped_crashed).bind fun kind _ => ?_
    cases kind with
    | none =>
      simp only [pure_bind]
      exact asks_refuse _
    | some kind =>
      simp only [pure_bind]
      refine (asks_read path).bind fun content _ => ?_
      split
      · exact World.asks_pure trivial
      · exact World.asks_throw (stopped_crashed _)
      · exact asks_refuse _

/-- What the command has prepared: its files are in order, and have a property that has to do with
its input. -/
structure Job.Ready (w : World) (o : Options) (P : Path → Path → Prop) (job : Job) : Prop where
  input : o.input = some job.input
  kind : w.kind? job.input = .ok (some job.kind)
  nonempty : job.files ≠ []
  sorted : job.files.Pairwise fun p q => p.le q = true
  files : ∀ path ∈ job.files, P job.input path ∧ w.kind? path = .ok (some .file)

/-- The files of the command have every property of its input that patterns keep. -/
theorem asks_prepare_closed {w : World} {o : Options} {P : Path → Path → Prop}
    (hclosed : ∀ input source, o.input = some input → w.find input = .ok source →
      Glob.Closed w (P input) ∧ P input input) :
    w.Asks (prepare o) Stopped (Job.Ready w o P) := by
  rw [prepare]
  refine (asks_loadSettings w o.config).bind fun s _ => ?_
  split
  · rw [refuse_bind]
    exact asks_refuse _
  refine (asks_valued inputOption o.input).bind fun input hinput => ?_
  refine (asks_stepKind? w input stopped_crashed).bind fun kind hkind => ?_
  cases kind with
  | none => exact asks_refuse _
  | some kind =>
    obtain ⟨source, hsource, -, -⟩ := World.exists_of_kind? hkind
    obtain ⟨hsteps, hself⟩ := hclosed input source hinput hsource
    refine (asks_sources stopped_crashed hkind hsteps hself).bind fun files hfiles => ?_
    split
    · rw [refuse_bind]
      exact asks_refuse _
    · rename_i hempty
      exact World.asks_pure
        ⟨hinput, hkind, fun hnil => hempty (List.isEmpty_iff.2 hnil), hfiles.1, hfiles.2⟩

/-- A file of the command, its text with unified line ends, and the expansion of that text. -/
structure Review where
  /-- The path of the file. -/
  path : Path
  /-- The text of the file. -/
  before : Text
  /-- The expansion of the text. -/
  result : Expansion

namespace Review

/-- What is printed about the faults of a file. -/
def faults (r : Review) : Text :=
  if r.result.diagnostics.isEmpty then []
  else Entry.printAll (some r.path.text) (r.result.diagnostics.map Entry.ofDiagnostic)

/-- Whether the file would change. -/
def changed (r : Review) : Bool :=
  r.result.text ≠ r.before

/-- What is printed about a file that would change. -/
def notice (r : Review) : Text :=
  if r.changed then diffLine r.path.text else []

/-- The review is about a file of the tree: its text is that of the file, and it is expanded as the
options say. -/
structure Of (w : World) (o : Options) (s : Settings) (r : Review) : Prop where
  read : ∃ t, w.find r.path = .ok (.file (.text t)) ∧ r.before = Text.unifyNewlines t
  result : o.expand? s r.before = some r.result

end Review

variable {w : World} {o : Options} {s : Settings} {input : Path} {kind : EntryKind} {r : Review}

theorem exec_reportFaults (w : World) (r : Review) :
    w.exec (reportFaults r.path r.result.diagnostics) =
      (.ok (), { w with errors := w.errors ++ r.faults }) := by
  rw [reportFaults, Review.faults]
  cases r.result.diagnostics.isEmpty with
  | true =>
    rw [if_pos rfl, List.append_nil]
    rfl
  | false => rfl

/-- The part of the work on a file that both runs have in common. -/
theorem exec_expandFile {w' : World} (hr : r.Of w o s) (hread : w'.read r.path = w.read r.path) :
    w'.exec (expandFile o s input kind r.path) =
      { w' with errors := w'.errors ++ r.faults }.exec (if o.check then
          if r.result.text = r.before then return r.result.ok
          else do
            Step.complain (diffLine r.path.text)
            return false
        else do
          deliver o input kind r.path r.result.text
          return r.result.ok) := by
  obtain ⟨t, hfind, hbefore⟩ := hr.read
  rw [World.read_text hfind] at hread
  have hread' := exec_read hread
  rw [← hbefore] at hread'
  rw [expandFile, World.exec_bind_ok hread', hr.result]
  rw [World.exec_bind_ok (show w'.exec (Step.valued argsOption (some r.result)) = (.ok r.result, w')
    from rfl), World.exec_bind_ok (exec_reportFaults w' r)]

/-- The counterpart of a file: the path for its output. -/
def Review.counterpart (r : Review) (input out : Path) : Path :=
  out.append (r.path.below input)

/-- The output for the file has been written. -/
def Review.Written (r : Review) (input out : Path) (above : List Text) (w : World) : Prop :=
  w.root.at? (above ++ out.last :: r.path.below input) = some (.file (.text r.result.text))

/-- Reviews of the same file are the same. -/
theorem Review.Of.unique {r r' : Review} (h : r.Of w o s) (h' : r'.Of w o s)
    (hpath : r.path = r'.path) : r.result = r'.result := by
  obtain ⟨t, hfind, hbefore⟩ := h.read
  obtain ⟨t', hfind', hbefore'⟩ := h'.read
  rw [hpath, hfind'] at hfind
  cases hfind
  have hresult := h.result
  rw [hbefore, ← hbefore', h'.result] at hresult
  exact (Option.some.inj hresult).symm

theorem exec_stepWrite {w' w₁ : World} {path : Path} {text : Text}
    (h : Store.write (m := StateM World) path text w' = (.done, w₁)) :
    w'.exec (Step.write path text) =
      (.ok (), { w₁ with output := w₁.output ++ okLine path.text }) := by
  have hlift : w'.exec (liftM (Store.write path text : StateM World _) : Step (StateM World) _) =
      (.ok .done, w₁) := by
    show (Except.ok (Store.write (m := StateM World) path text w').1,
      (Store.write (m := StateM World) path text w').2) = _
    rw [h]
  rw [Step.write, World.exec_bind_ok hlift]
  rfl

/-- A file is expanded and its output put in its place. -/
theorem exec_delivered {w' w₁ : World} {out path : Path} (hcheck : o.check = false)
    (hout : o.out = some out) (hr : r.Of w o s) (hread : w'.read r.path = w.read r.path)
    (htarget : { w' with errors := w'.errors ++ r.faults }.exec (target input kind out r.path) =
      (.ok path, { w' with errors := w'.errors ++ r.faults }))
    (hwrite : Store.write (m := StateM World) path r.result.text
      { w' with errors := w'.errors ++ r.faults } = (.done, w₁)) :
    w'.exec (expandFile o s input kind r.path) =
      (.ok r.result.ok, { w₁ with output := w₁.output ++ okLine path.text }) := by
  rw [exec_expandFile hr hread, hcheck, if_neg Bool.false_ne_true, deliver, hout]
  simp only [bind_assoc]
  rw [World.exec_bind_ok htarget, World.exec_bind_ok (exec_stepWrite hwrite)]
  rfl

section Writing

variable {out : Path} {above : List Text} {source : Node}
  (hspot : w.Spot out above) (hcheck : o.check = false) (hout : o.out = some out)
  (hsource : kind = .file → ∃ content, source = .file content)

include hspot hcheck hout hsource

end Writing

/-! ## Both runs -/

/-- The command line is accepted and means the options. -/
def Accepted (words : List Text) (o : Options) : Prop :=
  ∃ given, Usage.parse specs words = .ok (some given) ∧ Options.ofGiven given = o

/-- How a command ends, and the world after it. -/
def ending : Except Outcome Nat × World → Outcome × World
  | (.ok code, w) => (.exited code, w)
  | (.error e, w) => (e, w)

theorem outcome_apply (x : Step (StateM World) Nat) (w : World) :
    (Step.outcome x : StateM World Outcome) w = ending (w.exec x) := by
  obtain ⟨result, w', hresult⟩ : ∃ result w', w.exec x = (result, w') := ⟨_, _, rfl⟩
  have hrun : x.run w = (result, w') := hresult
  rw [Step.outcome, World.bind_apply hrun, hresult]
  cases result with
  | ok code => rfl
  | error e => rfl

theorem run_eq {words : List Text} (h : Accepted words o) (w : World) :
    (run words : StateM World Outcome) w = ending (w.exec (steps o)) := by
  obtain ⟨given, hparse, rfl⟩ := h
  have hoptions : w.exec (Step.options specs usage words) = (.ok given, w) := by
    rw [Step.options, hparse]
    rfl
  rw [run, outcome_apply, World.exec_bind_ok hoptions]

/-- The names of the path for the output have a meaning. -/
theorem Accepted.isName {words : List Text} {out : Path} (h : Accepted words o)
    (hout : o.out = some out) : ∀ name ∈ out.names, Path.isName name = true := by
  obtain ⟨given, -, rfl⟩ := h
  have hpath : pathOf given outOption = some out := hout
  rw [pathOf] at hpath
  split at hpath
  · cases hpath
    exact fun name hname => (List.mem_filter.1 hname).2
  · cases hpath

theorem exec_perform {w' : World} {job : Job} {right : Bool}
    (h : w.exec (expandAll o job.settings job.input job.kind job.files) = (.ok right, w')) :
    ending (w.exec (perform o job)) = (.exited (if right then 0 else 2), w') := by
  rw [perform, World.exec_bind_ok h]
  cases right with
  | true => rfl
  | false => rfl

theorem exited_eq_zero {b : Bool} : Outcome.exited (if b then 0 else 2) = .exited 0 ↔ b = true := by
  cases b <;> simp

end ExpandCommand

end CondAttrs
