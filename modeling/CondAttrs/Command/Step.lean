import CondAttrs.Command.Outcome
import CondAttrs.Files.Store

/-!
# The steps of commands

A command is a sequence of steps on some machine, each of which goes on with a
value or ends the command. What was printed and written before that stays.
-/

namespace CondAttrs

/-- The line that reports a file as written or up to date. -/
def okLine (path : Text) : Text :=
  "[OK] " ++ path ++ "\n"

/-- The line that reports a file as out of date. -/
def diffLine (path : Text) : Text :=
  "[DIFF] " ++ path ++ "\n"

/-- A step of a command on the machine `m`: it goes on with a value or ends the
command. -/
abbrev Step (m : Type → Type) (α : Type) := ExceptT Outcome m α

namespace Step

variable {m : Type → Type} [Monad m] [Host m]

/-- An operation of the machine whose failure ends the command. -/
def orCrash {α : Type} (action : m (Except FileError α)) : Step m α := do
  match ← (action : m _) with
  | .ok a => return a
  | .error e => throw (.crashed (.file e))

/-- Prints to the output. -/
def print (text : Text) : Step m Unit :=
  (Host.print text : m Unit)

/-- Prints to the error output. -/
def complain (text : Text) : Step m Unit :=
  (Host.complain text : m Unit)

/-- What a path leads to. -/
def kind? (path : Path) : Step m (Option EntryKind) :=
  orCrash (Host.kind? path)

/-- The text of a file, its line ends unified. -/
def read (path : Path) : Step m Text :=
  return Text.unifyNewlines (← orCrash (Host.read path))

/-- Ends the command with a message on the error output. -/
def refuse {α : Type} (message : Text) : Step m α := do
  complain (message ++ "\n")
  throw (.exited 2)

/-- The value of an option, which the command cannot do without. -/
def valued {α : Type} (option : Usage.Spec) : Option α → Step m α
  | some a => return a
  | none => throw (.crashed (.unvalued option))

/-- The options of a command line. The command ends if they are not accepted, and
with its usage on the output if they ask for help. -/
def options (specs : List Usage.Spec) (usage : Text) (words : List Text) :
    Step m (List (Usage.Spec × Option Text)) := do
  match Usage.parse specs words with
  | .error fault => throw (.misused fault)
  | .ok none =>
    print (usage ++ "\n")
    throw (.exited 0)
  | .ok (some given) => return given

/-- Writes a file and reports it as written. -/
def write (path : Path) (text : Text) : Step m Unit := do
  match ← (Store.write path text : m _) with
  | .refused message => refuse message
  | .failed e => throw (.crashed (.file e))
  | .done => print (okLine path.text)

/-- The end of a command whose steps lead to an exit code. -/
def outcome (steps : Step m Nat) : m Outcome := do
  match ← steps.run with
  | .ok code => return .exited code
  | .error ending => return ending

end Step

end CondAttrs
