import CondAttrs.Json.Display
import CondAttrs.Json.Parser
import CondAttrs.Settings.Basic

/-!
# Settings files

Settings are read from a JSON object with up to four sections. What is missing has
its default; what is not known is ignored. Names must be identifiers of plain
letters, and the directive must not have the name of the native attribute, because
the output would then be expanded again.

Keys are judged in a fixed order, and the first one that is refused is reported.
-/

namespace CondAttrs.Settings

/-- Why a settings file is refused. -/
inductive LoadFault where
  /-- There is no such file. -/
  | notFound
  /-- The file is no JSON. -/
  | invalidJson (content : Text) (fault : Json.Fault)
  /-- The file holds an integer that is too long to be read. -/
  | integerTooLong (digits : Nat)
  /-- The file holds something else than an object. -/
  | notObject
  /-- A section is no object. -/
  | sectionInvalid (key : Text)
  /-- A value is refused. -/
  | valueInvalid (key : Text) (value : Json.Value)
  /-- Directive and native attribute have the same name. -/
  | namesEqual

/-- The sentence about the file at `path`. -/
def LoadFault.message (path : Text) : LoadFault → Text
  | notFound => "CONFIG_NOT_FOUND: " ++ path
  | invalidJson content fault =>
    "CONFIG_INVALID_JSON: " ++ path ++ ": " ++ fault.message content
  | integerTooLong digits => (Json.Cause.integerTooLong digits).message
  | notObject => "CONFIG_INVALID_JSON: " ++ path ++ ": top-level value must be an object"
  | sectionInvalid key => "CONFIG_KEY_INVALID: " ++ path ++ ": " ++ key ++ " must be an object"
  | valueInvalid key value =>
    "CONFIG_KEY_INVALID: " ++ path ++ ": " ++ key ++ "=" ++ value.display
  | namesEqual =>
    "CONFIG_KEY_INVALID: " ++ path ++ ": directive.name must differ from native.name"

/-- Whether a character may start a name. -/
def isNameStart (c : Char) : Bool :=
  ('a' ≤ c && c ≤ 'z') || ('A' ≤ c && c ≤ 'Z') || c = '_'

/-- Whether a character may go on a name. -/
def isNamePart (c : Char) : Bool :=
  isNameStart c || ('0' ≤ c && c ≤ '9')

/-- Whether a text is a name: letters, digits and underscores, not starting with a
digit. One line feed may stand at the end. -/
def isName : Text → Bool
  | [] => false
  | c :: rest =>
    isNameStart c && (rest.all isNamePart ||
      (rest.getLast? = some '\n' && rest.dropLast.all isNamePart))

/-- The section with a given key; a missing section is empty. -/
def sectionOf (fields : List (Json.Str × Json.Value)) (key : Text) :
    Except LoadFault (List (Json.Str × Json.Value)) :=
  match Json.Value.field? key fields with
  | none => .ok []
  | some (.object fields) => .ok fields
  | some _ => .error (.sectionInvalid key)

/-- The name under `key`, which is called `label` in messages. -/
def nameOf (fields : List (Json.Str × Json.Value)) (key label default : Text) :
    Except LoadFault Text :=
  match Json.Value.field? key fields with
  | none => .ok default
  | some (.string s) =>
    if isName s.toText then .ok s.toText else .error (.valueInvalid label (.string s))
  | some value => .error (.valueInvalid label value)

/-- The settings that an object describes. -/
def ofFields (fields : List (Json.Str × Json.Value)) : Except LoadFault Settings := do
  let default : Settings := {}
  let directive ← nameOf (← sectionOf fields "directive") "name" "directive.name" default.directive
  let native ← nameOf (← sectionOf fields "native") "name" "native.name" default.native
  let diagnostics ← sectionOf fields "diagnostics"
  let errorName ← nameOf diagnostics "error_macro" "diagnostics.error_macro" default.errorName
  if directive = native then throw .namesEqual
  let warnUnsupported ←
    match Json.Value.field? "warn_unsupported" diagnostics with
    | none => pure default.warnUnsupported
    | some (.bool b) => pure b
    | some value => throw (.valueInvalid "diagnostics.warn_unsupported" value)
  let suffix ←
    match Json.Value.field? "suffix" (← sectionOf fields "files") with
    | none => pure default.suffix
    | some (.string s) =>
      if s.toText.head? = some '.' then pure s.toText
      else throw (.valueInvalid "files.suffix" (.string s))
    | some value => throw (.valueInvalid "files.suffix" value)
  return { directive, native, errorName, warnUnsupported, suffix }

/-- The settings in the content of a file, its line ends unified. -/
def load (content : Text) : Except LoadFault Settings :=
  match Json.parse content with
  | .error ⟨.integerTooLong digits, _⟩ => .error (.integerTooLong digits)
  | .error fault => .error (.invalidJson content fault)
  | .ok (.object fields) => ofFields fields
  | .ok _ => .error .notObject

end CondAttrs.Settings
