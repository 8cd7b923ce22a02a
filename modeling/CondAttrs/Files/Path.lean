import CondAttrs.Text.Basic

/-!
# Paths of files

A path is a list of names, possibly from a root. Empty names and the name `.`
carry no meaning and are dropped when a path is read; the name `..` stays, because
what it means depends on links. Paths are ordered by their lists of names, so the
files of a folder come before a file whose name goes on where the folder's ends.
-/

namespace CondAttrs

/-- A path. -/
structure Path where
  /-- The root: empty for a relative path, and otherwise one or two slashes. -/
  root : Text := []
  /-- The names. -/
  names : List Text
deriving DecidableEq

namespace Path

/-- The parts of a text between its slashes. -/
def splitSlashes : Text → List Text
  | [] => [[]]
  | c :: rest =>
    if c = '/' then [] :: splitSlashes rest
    else
      match splitSlashes rest with
      | [] => [[c]]
      | part :: parts => (c :: part) :: parts

/-- Whether a name carries meaning. -/
def isName (name : Text) : Bool :=
  name ≠ [] && name ≠ ['.']

/-- The name of the folder above. -/
def up : Text := ".."

/-- The path that a text denotes. Exactly two slashes at the start are a root of
their own. -/
def ofText (t : Text) : Path :=
  let root : Text :=
    match (t.takeWhile (· = '/')).length with
    | 0 => []
    | 2 => "//"
    | _ => "/"
  { root, names := (splitSlashes t).filter isName }

/-- The text of a path; the empty path is the current folder. -/
def text (p : Path) : Text :=
  if p.root.isEmpty && p.names.isEmpty then "." else p.root ++ Text.join "/" p.names

/-- The path without its last name. -/
def parent (p : Path) : Path :=
  { p with names := p.names.dropLast }

/-- The path with one more name. -/
def child (p : Path) (name : Text) : Path :=
  { p with names := p.names ++ [name] }

/-- The path with more names. -/
def append (p : Path) (names : List Text) : Path :=
  { p with names := p.names ++ names }

/-- The last name. -/
def last (p : Path) : Text :=
  p.names.getLast?.getD []

/-- The names of a path behind those of a folder that it is in. -/
def below (p folder : Path) : List Text :=
  p.names.drop folder.names.length

/-- Whether a path comes before or with another in the order of their names. -/
def le (p q : Path) : Bool :=
  !decide (q.names < p.names)

/-- Paths in order. -/
def sort (paths : List Path) : List Path :=
  paths.mergeSort le

end Path

end CondAttrs
