import CondAttrs.Files.Path

/-!
# The machine that a command runs on

What a command needs of the world: a few questions about files, three changes, and
two places to print to. A command is written once for every such machine. The
file system of the computer is one; the tree of files in memory, on which the
behaviour of commands is stated and tested, is another.

An operation that can fail returns its failure as a value. A command that meets a
failure it has no answer for ends with it.
-/

namespace CondAttrs

/-- Why an operation on files fails. -/
inductive FileError where
  /-- Nothing is there. -/
  | missing
  /-- Something is there already. -/
  | occupied
  /-- A file stands where a folder is needed. -/
  | notFolder
  /-- A folder stands where a file is needed. -/
  | isFolder
  /-- The place cannot be replaced. -/
  | busy
  /-- Links lead on and on. -/
  | linkLoop
  /-- A name, or the path as a whole, is too long. -/
  | tooLong
  /-- A name holds a character that no name can hold. -/
  | unnameable
  /-- The bytes of a file are no text. -/
  | undecodable
  /-- A file name pattern has no meaning. -/
  | badPattern
deriving DecidableEq

/-- The sentence for a failure. -/
def FileError.message : FileError → Text
  | missing => "no such file or directory"
  | occupied => "file exists"
  | notFolder => "not a directory"
  | isFolder => "is a directory"
  | busy => "the operation is not possible"
  | linkLoop => "too many levels of symbolic links"
  | tooLong => "file name too long"
  | unnameable => "embedded null byte"
  | undecodable => "the file is not valid UTF-8"
  | badPattern => "unacceptable pattern"

/-- What a path leads to. -/
inductive EntryKind where
  | file
  | folder
deriving DecidableEq

/-- The operations of a machine. -/
class Host (m : Type → Type) where
  /-- What a path leads to when links are followed; none if it leads nowhere. -/
  kind? : Path → m (Except FileError (Option EntryKind))
  /-- Whether the path itself is a link. -/
  isLink : Path → m (Except FileError Bool)
  /-- The text of a file, its line ends as they are. -/
  read : Path → m (Except FileError Text)
  /-- The names in a folder. -/
  names : Path → m (List Text)
  /-- A folder and all folders below it that are reached without links. -/
  folders : Path → m (List Path)
  /-- Makes a folder in an existing one. -/
  makeFolder : Path → m (Except FileError Unit)
  /-- Puts a file with the given text in the place of whatever file is there. -/
  replace : Path → Text → m (Except FileError Unit)
  /-- Prints to the output. -/
  print : Text → m Unit
  /-- Prints to the error output. -/
  complain : Text → m Unit

/-- Whether a failure to look something up only means that it is not there. -/
def FileError.isAbsence : FileError → Bool
  | tooLong => false
  | _ => true

end CondAttrs
