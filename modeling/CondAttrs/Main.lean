import CondAttrs.Command.Expand
import CondAttrs.Command.Readme

/-!
# The program

The commands on the file system of the computer. The word `readme` in front of the
options selects the page command; otherwise the expansion command runs.
-/

namespace CondAttrs

namespace Disk

/-- The name of a path for the system. -/
def place (path : Path) : String :=
  String.ofList path.text

/-- Whether a code of the system is the given one, with either sign. -/
def isCode (given code : UInt32) : Bool :=
  code = given || code = 0 - given

/-- The cause of a failure of the system. -/
def cause : IO.Error → FileError
  | .noFileOrDirectory _ _ _ => .missing
  | .alreadyExists _ _ _ => .occupied
  | .inappropriateType _ code _ => if isCode 21 code then .isFolder else .notFolder
  | .invalidArgument _ code _ => if isCode 36 code then .tooLong else .busy
  | _ => .busy

/-- Runs an action on a path, its failure as a value. -/
def attempt {α : Type} (path : Path) (action : IO α) : IO (Except FileError α) := do
  if path.text.contains '\x00' then return .error .unnameable
  match ← action.toBaseIO with
  | .ok a => return .ok a
  | .error e => return .error (cause e)

/-- What a path leads to. -/
def kind? (path : Path) : IO (Except FileError (Option EntryKind)) := do
  match ← attempt path ((← IO.currentDir) / place path).metadata with
  | .ok data => return .ok (some (if data.type == .dir then .folder else .file))
  | .error e => return if e.isAbsence then .ok none else .error e

/-- The kind of the entry at a path, a link not being followed. -/
def ownType? (path : Path) : IO (Except FileError (Option IO.FS.FileType)) := do
  match ← attempt path ((← IO.currentDir) / place path).symlinkMetadata with
  | .ok data => return .ok (some data.type)
  | .error e => return if e.isAbsence then .ok none else .error e

/-- The text of a file. -/
def read (path : Path) : IO (Except FileError Text) := do
  match ← attempt path (IO.FS.readBinFile (place path)) with
  | .error e => return .error e
  | .ok bytes =>
    match String.fromUTF8? bytes with
    | some s => return .ok s.toList
    | none => return .error .undecodable

/-- The names in a folder. -/
def names (path : Path) : IO (List Text) := do
  match ← attempt path ((← IO.currentDir) / place path).readDir with
  | .ok entries => return entries.toList.map fun e => e.fileName.toList
  | .error _ => return []

/-- The folders below a folder. -/
partial def foldersBelow (path : Path) : IO (List Path) := do
  let mut found := []
  for name in ← names path do
    let child := path.child name
    if let .ok (some .dir) ← ownType? child then
      found := found ++ child :: (← foldersBelow child)
  return found

/-- A folder and all folders below it. -/
def folders (path : Path) : IO (List Path) := do
  match ← kind? path with
  | .ok (some .folder) => return path :: (← foldersBelow path)
  | _ => return []

/-- Writes a file beside its place and moves it there. -/
def replace (path : Path) (text : Text) : IO (Except FileError Unit) := do
  let draft := place (path.parent.child (path.last ++ ".draft"))
  let result ← attempt path do
    IO.FS.writeFile draft (String.ofList text)
    IO.FS.rename draft (place path)
  if let .error _ := result then
    let _ ← attempt path (IO.FS.removeFile draft)
  return result

end Disk

instance : Host IO where
  kind? := Disk.kind?
  isLink path := return (← Disk.ownType? path).map fun type? => type? matches some .symlink
  read := Disk.read
  names := Disk.names
  folders := Disk.folders
  makeFolder path := Disk.attempt path (IO.FS.createDir (Disk.place path))
  replace := Disk.replace
  print text := do (← IO.getStdout).putStr (String.ofList text)
  complain text := do (← IO.getStderr).putStr (String.ofList text)

/-- The exit code of a command; what it did not say itself is printed. -/
def Outcome.finish (name : Text) : Outcome → IO UInt32
  | exited code => return code.toUInt32
  | misused fault => do
    Host.complain (name ++ ": error: " ++ fault.message ++ "\n")
    return 2
  | crashed cause => do
    Host.complain (name ++ ": " ++ cause.message ++ "\n")
    return 1

end CondAttrs

/-- The program. -/
def main (words : List String) : IO UInt32 := do
  match words with
  | "readme" :: options =>
    let outcome ← CondAttrs.ReadmeCommand.run (options.map String.toList)
    outcome.finish CondAttrs.ReadmeCommand.name
  | options =>
    let outcome ← CondAttrs.ExpandCommand.run (options.map String.toList)
    outcome.finish CondAttrs.ExpandCommand.name
