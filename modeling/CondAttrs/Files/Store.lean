import CondAttrs.Files.Host

/-!
# Writing files

A file is written as a whole or not at all, and the folders above it are made as
needed. A link in the place of the file is refused, so that the text does not end
up wherever the link leads. A path that no file can have is refused too, though
the folders above it may have been made by then.
-/

namespace CondAttrs.Store

variable {m : Type → Type} [Monad m] [Host m]

/-- A failure to make a folder does not matter if the folder is there. -/
def unlessFolder (path : Path) (e : FileError) : m (Except FileError Unit) := do
  match ← Host.kind? path with
  | .ok (some .folder) => return .ok ()
  | .ok _ => return .error e
  | .error other => return .error other

/-- Makes a folder, or accepts that it is there. -/
def makeFolder (path : Path) : m (Except FileError Unit) := do
  match ← Host.makeFolder path with
  | .ok () => return .ok ()
  | .error .missing => return .error .missing
  | .error .unnameable => return .error .unnameable
  | .error e => unlessFolder path e

/-- Makes a folder and all that are missing above it. -/
def makeFolders (path : Path) : m (Except FileError Unit) := do
  match ← Host.makeFolder path with
  | .ok () => return .ok ()
  | .error .missing =>
    if _h : path.names = [] then return .error .missing
    else
      match ← makeFolders path.parent with
      | .ok () => makeFolder path
      | .error e => return .error e
  | .error .unnameable => return .error .unnameable
  | .error e => unlessFolder path e
termination_by path.names.length
decreasing_by
  have := List.length_pos_iff.2 _h
  simp only [Path.parent, List.length_dropLast]
  omega

/-- How an attempt to write a file ends. -/
inductive Written where
  /-- The file is there. -/
  | done
  /-- The path is refused, with the given words. -/
  | refused (message : Text)
  /-- The machine failed. -/
  | failed (error : FileError)

/-- What is said about a link that was refused. -/
def refusal (path : Path) : Text :=
  "E_OUTPUT_SYMLINK: " ++ path.text

/-- The end that a failure of the machine leads to. -/
def Written.ofError : FileError → Written
  | .unnameable => .refused FileError.unnameable.message
  | e => .failed e

/-- Writes a file. -/
def write (path : Path) (text : Text) : m Written := do
  match ← Host.isLink path with
  | .error e => return .ofError e
  | .ok true => return .refused (refusal path)
  | .ok false =>
    match ← makeFolders path.parent with
    | .error e => return .ofError e
    | .ok () =>
      match ← Host.replace path text with
      | .error e => return .ofError e
      | .ok () => return .done

end CondAttrs.Store
