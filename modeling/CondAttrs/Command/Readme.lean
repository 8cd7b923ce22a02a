import CondAttrs.Command.Step
import CondAttrs.Readme.Page

/-!
# The page command

Renders the page of a documentation source, or checks that the page is up to date.
-/

namespace CondAttrs.ReadmeCommand

/-- The documentation source. -/
def inputOption : Usage.Spec := ⟨"--input", true, false⟩

/-- Where the page goes. -/
def outOption : Usage.Spec := ⟨"--out", true, false⟩

/-- Nothing is written. -/
def checkOption : Usage.Spec := ⟨"--check", false, false⟩

/-- The options of the command. -/
def specs : List Usage.Spec :=
  [inputOption, outOption, checkOption]

/-- The name of the command. -/
def name : Text := "cfg-attrs-readme"

/-- What the command says when asked for help. -/
def usage : Text :=
  "usage: " ++ name ++ " [--input INPUT] [--out OUT] [--check]"

/-- The path given by an option, or the default; none if the option stands without
a value. -/
def pathOf (given : List (Usage.Spec × Option Text)) (spec : Usage.Spec) (default : Text) :
    Option Path :=
  ((Usage.value? given spec).getD (some default)).map Path.ofText

variable {m : Type → Type} [Monad m] [Host m]

/-- The text of the page as it is now, if there is one. -/
def current (out : Path) : Step m (Option Text) := do
  match ← Step.kind? out with
  | none => return none
  | some _ => return some (← Step.read out)

/-- Compares the page with what it should be. -/
def check (out : Path) (page : Text) : Step m Nat := do
  if (← current out) = some page then
    Step.print (okLine out.text)
    return 0
  else
    Step.complain (diffLine out.text)
    return 2

/-- The steps of the command, from its options to its exit code. -/
def steps (given : List (Usage.Spec × Option Text)) : Step m Nat := do
  let input ← Step.valued inputOption (pathOf given inputOption "docs.md")
  match ← Step.kind? input with
  | none => Step.refuse ("E_INPUT_NOT_FOUND: " ++ input.text)
  | some _ =>
    let page := Readme.page (← Step.read input)
    let out ← Step.valued outOption (pathOf given outOption "README.md")
    if (Usage.value? given checkOption).isSome then check out page
    else
      Step.write out page
      return 0

/-- Runs the command. -/
def run (words : List Text) : m Outcome :=
  Step.outcome do steps (← Step.options specs usage words)

end CondAttrs.ReadmeCommand
