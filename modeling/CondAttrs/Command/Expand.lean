import CondAttrs.Command.Step
import CondAttrs.Diagnostic.Report
import CondAttrs.Expansion
import CondAttrs.Files.Glob
import CondAttrs.Settings.Load

/-!
# The expansion command

Expands a file, or all source files of a folder. The expanded text of a single
file goes to the output unless a place for it is given; a folder needs one. In
checking mode nothing is written and every file that would change is reported.

Files are read, expanded and written one after the other in the order of their
paths. A file with errors is still written, because its output carries the errors;
the command then ends with the exit code 2.
-/

namespace CondAttrs.ExpandCommand

/-! ## Options -/

/-- The file or folder to expand. -/
def inputOption : Usage.Spec := ⟨"--input", true, true⟩

/-- Where the output goes. -/
def outOption : Usage.Spec := ⟨"--out", true, false⟩

/-- The settings file. -/
def configOption : Usage.Spec := ⟨"--config", true, false⟩

/-- Every file is a single declaration. -/
def itemOption : Usage.Spec := ⟨"--item", false, false⟩

/-- The arguments of the invocation. -/
def argsOption : Usage.Spec := ⟨"--args", true, false⟩

/-- Nothing is written. -/
def checkOption : Usage.Spec := ⟨"--check", false, false⟩

/-- The options of the command. -/
def specs : List Usage.Spec :=
  [inputOption, outOption, configOption, itemOption, argsOption, checkOption]

/-- The name of the command. -/
def name : Text := "cfg-attrs"

/-- What the command says when asked for help. -/
def usage : Text :=
  "usage: " ++ name ++ " --input INPUT [--out OUT] [--config CONFIG] [--item] [--args ARGS] [--check]"

/-- What the user asked for. -/
structure Options where
  /-- The file or folder to expand; none if the option stands without a value. -/
  input : Option Path
  /-- Where the output goes. -/
  out : Option Path
  /-- The settings file. -/
  config : Option Path
  /-- Whether every file is a single declaration. -/
  item : Bool
  /-- The arguments of the invocation; none if the option stands without a value. -/
  arguments : Option Text
  /-- Whether nothing is written. -/
  check : Bool

/-- The path given by an option; none if the option is missing, stands without a
value or has an empty one. -/
def pathOf (given : List (Usage.Spec × Option Text)) (spec : Usage.Spec) : Option Path :=
  match Usage.value? given spec with
  | some (some (c :: rest)) => some (Path.ofText (c :: rest))
  | _ => none

/-- The options that were given. -/
def Options.ofGiven (given : List (Usage.Spec × Option Text)) : Options :=
  { input := ((Usage.value? given inputOption).getD none).map Path.ofText
    out := pathOf given outOption
    config := pathOf given configOption
    item := (Usage.value? given itemOption).isSome
    arguments := (Usage.value? given argsOption).getD (some [])
    check := (Usage.value? given checkOption).isSome }

/-- The expanded text of a file. There is none if a single declaration is to be
expanded with arguments that have no value. -/
def Options.expand? (o : Options) (s : Settings) (t : Text) : Option Expansion :=
  if o.item then o.arguments.map (expandItem s t) else some (transform s t)

/-! ## The run -/

variable {m : Type → Type} [Monad m] [Host m]

/-- The settings in a file, and the default settings if there is none. -/
def loadSettings : Option Path → Step m Settings
  | none => return {}
  | some path => do
    let loaded : Except Settings.LoadFault Settings ←
      match ← Step.kind? path with
      | none => pure (.error .notFound)
      | some _ => pure (Settings.load (← Step.read path))
    match loaded with
    | .ok s => return s
    | .error (.integerTooLong digits) => throw (.crashed (.longInteger digits))
    | .error fault => Step.refuse (fault.message path.text)

/-- The files to expand, in order: the input itself if it is a file, and otherwise
the files in it whose names end with the suffix, which may hold pattern marks. -/
def sources (input : Path) (kind : EntryKind) (suffix : Text) : Step m (List Path) := do
  if kind = .file then return [input]
  else
    match Glob.ofText? ('*' :: suffix) with
    | none => throw (.crashed (.file .badPattern))
    | some steps =>
      let found ← Step.orCrash (Glob.select (.deep :: steps) input).run
      let files ← found.filterM fun path => return (← Step.kind? path) = some .file
      return Path.sort files

/-- Where the output for a file goes. The output for a single file goes into the
given folder, if it is one; that for a folder keeps the structure of the folder. -/
def target (input : Path) (kind : EntryKind) (out : Path) (path : Path) : Step m Path := do
  if kind = .file then
    if (← Step.kind? out) = some .folder then return out.child path.last else return out
  else return out.append (path.below input)

/-- Reports the faults of a file. -/
def reportFaults (path : Path) (diagnostics : List Diagnostic) : Step m Unit := do
  if !diagnostics.isEmpty then
    Step.complain (Entry.printAll (some path.text) (diagnostics.map Entry.ofDiagnostic))

/-- Puts the output for a file in its place. -/
def deliver (o : Options) (input : Path) (kind : EntryKind) (path : Path) (text : Text) :
    Step m Unit := do
  match o.out with
  | none => Step.print text
  | some out => Step.write (← target input kind out path) text

/-- Expands one file and returns whether it had no errors and, in checking mode,
would not change. -/
def expandFile (o : Options) (s : Settings) (input : Path) (kind : EntryKind) (path : Path) :
    Step m Bool := do
  let before ← Step.read path
  let result ← Step.valued argsOption (o.expand? s before)
  reportFaults path result.diagnostics
  if o.check then
    if result.text = before then return result.ok
    else
      Step.complain (diffLine path.text)
      return false
  else
    deliver o input kind path result.text
    return result.ok

/-- Expands the files of a list, all of them, and returns whether each was right. -/
def expandAll (o : Options) (s : Settings) (input : Path) (kind : EntryKind) :
    List Path → Step m Bool
  | [] => return true
  | path :: rest => do
    let first ← expandFile o s input kind path
    let others ← expandAll o s input kind rest
    return first && others

/-- The steps of the command, from its options to its exit code. -/
def steps (o : Options) : Step m Nat := do
  let s ← loadSettings o.config
  if !(o.arguments.getD []).isEmpty && !o.item then
    Step.refuse "E_ARGS_REQUIRES_ITEM: --args is only valid with --item"
  let input ← Step.valued inputOption o.input
  match ← Step.kind? input with
  | none => Step.refuse ("E_INPUT_NOT_FOUND: " ++ input.text)
  | some kind =>
    let files ← sources input kind s.suffix
    if files.isEmpty then
      Step.refuse ("E_INPUT_NOT_FOUND: no " ++ s.suffix ++ " files under " ++ input.text)
    if kind = .folder && o.out.isNone && !o.check then
      Step.refuse "E_OUTPUT_REQUIRED: --out is required for directory input"
    if ← expandAll o s input kind files then return 0 else return 2

/-- Runs the command. -/
def run (words : List Text) : m Outcome :=
  Step.outcome do steps (Options.ofGiven (← Step.options specs usage words))

end CondAttrs.ExpandCommand
