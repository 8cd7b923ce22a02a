import CondAttrs.Command.Usage
import CondAttrs.Files.Host

/-!
# How a command ends

A command ends with an exit code, because its command line is not accepted, or
because it meets something for which it has no answer.
-/

namespace CondAttrs

/-- What a command has no answer for. -/
inductive Crash where
  /-- A failure of the machine. -/
  | file (error : FileError)
  /-- An option that stands without the value that is needed. -/
  | unvalued (option : Usage.Spec)
  /-- An integer in the settings that is too long to be read. -/
  | longInteger (digits : Nat)

/-- The sentence for a crash. -/
def Crash.message : Crash → Text
  | file error => error.message
  | unvalued option => "argument " ++ option.label ++ ": no value"
  | longInteger digits => "an integer of " ++ Text.decimal digits ++ " digits is too long"

/-- How a command ends. -/
inductive Outcome where
  /-- With an exit code. -/
  | exited (code : Nat)
  /-- With a command line that it does not accept. -/
  | misused (fault : Usage.Fault)
  /-- With something for which it has no answer. -/
  | crashed (cause : Crash)

end CondAttrs
