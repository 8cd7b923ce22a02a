import CondAttrs.Diagnostic.Basic
import CondAttrs.Json.Quoted

/-!
# Printed diagnostics

Diagnostics are printed as a JSON array with one object for each, two blanks of
indentation for every level. An object names the file first, if it is known, and
then the eight properties of the diagnostic in a fixed order.
-/

namespace CondAttrs

/-- A diagnostic as it is printed. -/
structure Entry where
  /-- The identifier of the kind of fault. -/
  code : Text
  /-- How much it weighs. -/
  severity : Text
  /-- The sentence. -/
  message : Text
  /-- What would have been right. -/
  expected : Text
  /-- What stood there. -/
  got : Text
  /-- The place in the structure of the source. -/
  path : Text
  /-- The line. -/
  line : Int
  /-- The column. -/
  col : Int

namespace Entry

/-- A diagnostic as an entry. -/
def ofDiagnostic (d : Diagnostic) : Entry :=
  { code := d.fault.code
    severity := d.severity.label
    message := d.fault.message
    expected := d.fault.expected
    got := d.fault.got
    path := d.pointer
    line := d.pos.line
    col := d.pos.col }

/-- Whether the entry reports an error. -/
def isError (e : Entry) : Bool :=
  e.severity = Severity.error.label

/-- The code and the sentence of an entry. -/
def summary (e : Entry) : Text :=
  e.code ++ ": " ++ e.message

/-- The properties of an entry, printed. -/
def properties (e : Entry) : List (Text × Text) :=
  [ ("code", Json.quoted e.code), ("severity", Json.quoted e.severity),
    ("message", Json.quoted e.message), ("expected", Json.quoted e.expected),
    ("got", Json.quoted e.got), ("path", Json.quoted e.path), ("line", Text.integer e.line),
    ("col", Text.integer e.col) ]

/-- One entry, as an object inside the array. -/
def print (source : Option Text) (e : Entry) : Text :=
  let file := (source.map fun name => (("file" : Text), Json.quoted name)).toList
  let lines := (file ++ e.properties).map fun (key, value) =>
    "    " ++ Json.quoted key ++ ": " ++ value
  "  \x7b\n" ++ Text.join ",\n" lines ++ "\n  \x7d"

/-- The entries that concern one file, printed. -/
def printAll (source : Option Text) (entries : List Entry) : Text :=
  if entries.isEmpty then "[]\n"
  else "[\n" ++ Text.join ",\n" (entries.map (print source)) ++ "\n]\n"

end Entry

end CondAttrs
