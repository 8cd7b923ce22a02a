import CondAttrs.Files.Host

/-!
# File trees

A file system in memory: folders with named entries, files and symbolic links. It
is the machine on which the behaviour of commands is stated.

Looking up a path is a walk from folder to folder, starting at the working folder
or, for a path from the root, at the root, which is its own parent. A link on the
way is replaced by its target, at most forty times. The result of a walk is a
*location*, a list of names that lead to an entry without links.

## Main definitions

* `Node`, `Node.at?`, `Node.put`: trees, and the entry at a location.
* `Node.walk`: the location that a list of names leads to.
* `World`: a tree with a working folder, and what has been printed; a machine.
-/

namespace CondAttrs

/-- What a file holds. -/
inductive Content where
  /-- Text. -/
  | text (t : Text)
  /-- Bytes that are no text. -/
  | bytes (b : ByteArray)

/-- What some bytes are: text, if they are well-formed. -/
def Content.ofBytes (b : ByteArray) : Content :=
  match String.fromUTF8? b with
  | some s => .text s.toList
  | none => .bytes b

/-- An entry of a file tree. -/
inductive Node where
  /-- A file. -/
  | file (content : Content)
  /-- A folder with its entries. -/
  | folder (entries : List (Text × Node))
  /-- A symbolic link. -/
  | link (target : Text)

namespace Node

/-! ## Locations -/

/-- The entries with one of them set: an entry of that name is replaced in place,
otherwise a new one comes last. -/
def setEntry (name : Text) (node : Node) : List (Text × Node) → List (Text × Node)
  | [] => [(name, node)]
  | (n, old) :: rest =>
    if n = name then (n, node) :: rest else (n, old) :: setEntry name node rest

/-- The entry at a location. -/
def at? : Node → List Text → Option Node
  | node, [] => some node
  | folder entries, name :: rest => (entries.lookup name).bind fun node => at? node rest
  | _, _ :: _ => none

/-- The tree with a node put at a location whose parent is a folder. -/
def put : Node → List Text → Node → Node
  | _, [], node => node
  | folder entries, name :: rest, node =>
    folder (setEntry name (put ((entries.lookup name).getD (folder [])) rest node) entries)
  | other, _ :: _, _ => other

/-- The tree without the entry at a location. -/
def erase : List Text → Node → Node
  | [name], folder entries => folder (entries.filter fun (n, _) => n ≠ name)
  | name :: rest, folder entries =>
    match entries.lookup name with
    | some node => folder (setEntry name (erase rest node) entries)
    | none => folder entries
  | _, other => other

/-! ## Walks -/

/-- How many links a walk may follow. -/
def maxLinks : Nat := 40

/-- The greatest number of bytes of a name. -/
def maxName : Nat := 255

/-- The greatest number of bytes of a path. -/
def maxPath : Nat := 4095

/-- The entry of a folder with the given name, if there is one. -/
def entry? (entries : List (Text × Node)) (name : Text) : Except FileError (Option Node) :=
  if Text.byteSize name > maxName then .error .tooLong else .ok (entries.lookup name)

/-- The location that some names lead to from a given one, links followed. -/
def walk (root : Node) (links : Nat) (here : List Text) (names : List Text) :
    Except FileError (List Text) :=
  match names with
  | [] => .ok here
  | name :: rest =>
    match root.at? here with
    | some (folder entries) =>
      if !Path.isName name then walk root links here rest
      else if name = Path.up then walk root links here.dropLast rest
      else
        match entry? entries name with
        | .error e => .error e
        | .ok none => .error .missing
        | .ok (some (link target)) =>
          match links with
          | 0 => .error .linkLoop
          | links + 1 =>
            let start := if target.head? = some '/' then [] else here
            walk root links start (Path.splitSlashes target ++ rest)
        | .ok (some _) => walk root links (here ++ [name]) rest
    | _ => .error .notFolder
termination_by (links, names.length)

end Node

/-! ## Worlds -/

/-- A file tree with a working folder, and what has been printed. -/
structure World where
  /-- The root of the tree. -/
  root : Node
  /-- The location of the working folder. -/
  home : List Text
  /-- What was printed to the output. -/
  output : Text := []
  /-- What was printed to the error output. -/
  errors : Text := []

namespace World

open Node

/-- Whether the machine takes a path at all. -/
def takes (path : Path) : Except FileError Unit :=
  if path.names.any fun name => name.contains '\x00' then .error .unnameable
  else if Text.byteSize path.text > maxPath then .error .tooLong
  else .ok ()

/-- Where the walk along a path starts. -/
def start (w : World) (path : Path) : List Text :=
  if path.root.isEmpty then w.home else []

/-- The location of what a path leads to. -/
def resolve (w : World) (path : Path) : Except FileError (List Text) := do
  takes path
  w.root.walk maxLinks (w.start path) path.names

/-- The location of the folder that a path's last name is in, and what stands there
under that name, a link not being followed. The last name is not `..`. -/
def resolveLast (w : World) (path : Path) : Except FileError (List Text × Option Node) := do
  takes path
  let location ← w.root.walk maxLinks (w.start path) path.parent.names
  match w.root.at? location with
  | some (.folder entries) => return (location, ← entry? entries path.last)
  | _ => throw .notFolder

/-- The entry that a path leads to. -/
def find (w : World) (path : Path) : Except FileError Node := do
  match w.root.at? (← w.resolve path) with
  | some node => return node
  | none => throw .missing

end World

namespace Node

mutual

/-- A folder, found at `path`, and the folders below it. -/
def foldersOf (path : Path) : Node → List Path
  | folder entries => path :: foldersIn path entries
  | _ => []

/-- The folders among some entries of the folder at `path`, and those below them. -/
def foldersIn (path : Path) : List (Text × Node) → List Path
  | [] => []
  | (name, node) :: rest => foldersOf (path.child name) node ++ foldersIn path rest

end

mutual

/-- All entries of a folder, with their names from there on. -/
def entriesBelow (names : List Text) : Node → List (List Text × Node)
  | folder entries => entriesIn names entries
  | _ => []

/-- The given entries and all below them. -/
def entriesIn (names : List Text) : List (Text × Node) → List (List Text × Node)
  | [] => []
  | (name, node) :: rest =>
    (names ++ [name], node) :: (entriesBelow (names ++ [name]) node ++ entriesIn names rest)

end

end Node

namespace World

/-! ## Changes -/

/-- Whether a path has a last name that can stand for an entry. -/
def hasLast (path : Path) : Bool :=
  path.names ≠ [] && path.last ≠ Path.up

/-- The world with an entry put at a location. -/
def put (w : World) (location : List Text) (node : Node) : World :=
  { w with root := w.root.put location node }

/-- The world with a new folder. -/
def withFolder (w : World) (path : Path) : Except FileError World := do
  if !hasLast path then
    let _ ← w.find path
    throw .occupied
  match ← w.resolveLast path with
  | (_, some _) => throw .occupied
  | (location, none) => return w.put (location ++ [path.last]) (.folder [])

/-- The world with a file in the place of a file, a link or nothing. -/
def withFile (w : World) (path : Path) (content : Content) : Except FileError World := do
  if !hasLast path then throw .busy
  match ← w.resolveLast path with
  | (_, some (.folder _)) => throw .isFolder
  | (location, _) => return w.put (location ++ [path.last]) (.file content)

/-- The world with a new link. -/
def withLink (w : World) (path : Path) (target : Text) : Except FileError World := do
  match ← w.resolveLast path with
  | (_, some _) => throw .occupied
  | (location, none) => return w.put (location ++ [path.last]) (.link target)

/-- The world without a file or link. -/
def without (w : World) (path : Path) : Except FileError World := do
  match ← w.resolveLast path with
  | (_, none) => throw .missing
  | (location, some _) => return { w with root := w.root.erase (location ++ [path.last]) }

/-! ## The machine -/

/-- A world with nothing in it but an empty working folder. Its name is the empty
one, which no path can spell. -/
def empty : World :=
  { root := .folder [([], .folder [])], home := [[]] }

/-- The result of a look-up in which absence is no failure. -/
def orAbsent {α : Type} (absent : α) : Except FileError α → Except FileError α
  | .ok a => .ok a
  | .error e => if e.isAbsence then .ok absent else .error e

/-- What a path leads to. -/
def kind? (w : World) (path : Path) : Except FileError (Option EntryKind) :=
  orAbsent none do
    match ← w.find path with
    | .file _ => return some .file
    | .folder _ => return some .folder
    | .link _ => return none

/-- Whether the path itself is a link. -/
def isLink (w : World) (path : Path) : Except FileError Bool :=
  orAbsent false do
    if !hasLast path then return false
    match ← w.resolveLast path with
    | (_, some (.link _)) => return true
    | _ => return false

/-- The text of a file. -/
def read (w : World) (path : Path) : Except FileError Text := do
  match ← w.find path with
  | .file (.text t) => return t
  | .file (.bytes _) => throw .undecodable
  | .folder _ => throw .isFolder
  | .link _ => throw .missing

/-- The names in a folder. -/
def names (w : World) (path : Path) : List Text :=
  match w.find path with
  | .ok (.folder entries) => entries.map Prod.fst
  | _ => []

/-- A folder and the folders below it. -/
def folders (w : World) (path : Path) : List Path :=
  match w.find path with
  | .ok node => node.foldersOf path
  | .error _ => []

/-- All entries of the working folder, with their names from there on. -/
def entries (w : World) : List (List Text × Node) :=
  match w.root.at? w.home with
  | some node => node.entriesBelow []
  | none => []

/-- Makes a change to the world, or reports why it is impossible. -/
def change (f : World → Except FileError World) : StateM World (Except FileError Unit) := fun w =>
  match f w with
  | .ok w => (.ok (), w)
  | .error e => (.error e, w)

end World

instance : Host (StateM World) where
  kind? path := return (← get).kind? path
  isLink path := return (← get).isLink path
  read path := return (← get).read path
  names path := return (← get).names path
  folders path := return (← get).folders path
  makeFolder path := World.change fun w => w.withFolder path
  replace path text := World.change fun w => w.withFile path (.text text)
  print text := modify fun w => { w with output := w.output ++ text }
  complain text := modify fun w => { w with errors := w.errors ++ text }

end CondAttrs
