import ChainFs.Store.File

/-!
# Where the tools find their files

The tools create, open and save files by name. What that means is left open, so that the same tools
work on the files of the machine and on a folder that is a value.

* `Workspace m` — the file operations, carried out in `m`;
* `Folder` — files by name in one flat directory, with `Folder.workspace`;
* `Route`, `Folder.follow` — paths, and where they lead that start in a folder.

A path may lead through directories of the machine that a folder does not have, so what can be said
of it is where it leads from a place that is known: to a file of the folder, to the folder itself,
or away.
-/

namespace ChainFs.Tool

/-- File operations in a monad. -/
structure Workspace (m : Type → Type) where
  /-- A new file of zero bytes in place of whatever was there. -/
  create : (path : String) → (length : Nat) → m (Except SystemError Store.File)
  /-- The file at a path. -/
  openFile : (path : String) → (writable : Bool) → m (Except SystemError Store.File)
  /-- Keeps what was written to a file. -/
  save : (path : String) → Store.File → m Unit
  /-- Mounts a volume at a path and serves it until it is unmounted. -/
  attach : (path : String) → m (Except SystemError Unit)

/-- The files of a directory that has no directories in it. -/
structure Folder where
  files : List (String × Bytes.Sparse)
  /-- The length beyond which no file of it can grow. -/
  sizeLimit : Nat

/-- A path as it is followed: from where, through which names, and whether a slash at its end asks
for a directory. -/
structure Route where
  /-- Whether it starts at the folder; a path that begins with a slash does not. -/
  fromFolder : Bool
  names : List String
  asksForDirectory : Bool
  deriving DecidableEq, Repr

/-- The route of a path; the empty path leads nowhere. -/
def Route.ofPath (path : String) : Except SystemError Route :=
  if path = "" then .error .noEntry
  else
    let bare := (path.toList.reverse.dropWhile (· = '/')).reverse
    .ok {
      fromFolder := path.toList.head? ≠ some '/'
      names := (bare.splitOn '/').map String.ofList
      asksForDirectory := bare ≠ path.toList }

namespace Folder

/-- Where a path leads. -/
inductive Target
  /-- The folder itself. -/
  | folder
  /-- A directory around the folder. -/
  | outside
  /-- A file of the folder, there or not. -/
  | file (name : String)
  deriving DecidableEq, Repr

/-- The content of a file. -/
def content? (folder : Folder) (name : String) : Option Bytes.Sparse :=
  folder.files.lookup name

/-- The folder with a file of this content. -/
def insert (folder : Folder) (name : String) (content : Bytes.Sparse) : Folder :=
  { folder with files := (name, content) :: folder.files.filter (·.1 ≠ name) }

/-- The longest name a file of the host system can have, in bytes. -/
def maxNameSize : Nat :=
  255

/-- The longest path that a file can be opened by, in bytes. -/
def maxPathSize : Nat :=
  4095

/-- One name further. Only directories can be gone on from, and of those around the folder nothing
is known to be in them. -/
def step (folder : Folder) (here : Target) (name : String) : Except SystemError Target :=
  match here with
  | .file missingOrFile =>
    match folder.content? missingOrFile with
    | some _ => .error .notDirectory
    | none => .error .noEntry
  | .folder =>
    if name = "" ∨ name = "." then .ok .folder
    else if name = ".." then .ok .outside
    else if maxNameSize < name.utf8ByteSize then .error .nameTooLong
    else .ok (.file name)
  | .outside =>
    if name = "" ∨ name = "." ∨ name = ".." then .ok .outside
    else if maxNameSize < name.utf8ByteSize then .error .nameTooLong
    else .error .noEntry

/-- Follows the names of a route. -/
def follow (folder : Folder) (route : Route) : Except SystemError Target :=
  route.names.foldlM folder.step (if route.fromFolder then .folder else .outside)

/-- What is found at a path. -/
inductive Entry
  | directory
  | file (content : Bytes.Sparse)

/-- What a route leads to, which has to be there. -/
def find (folder : Folder) (route : Route) : Except SystemError Entry := do
  match ← folder.follow route with
  | .folder | .outside => return .directory
  | .file name =>
    match folder.content? name with
    | none => throw .noEntry
    | some content =>
      if route.asksForDirectory then throw .notDirectory
      return .file content

/-- The route of a path that a file is opened by. -/
def openingRoute (path : String) : Except SystemError Route :=
  if maxPathSize < path.utf8ByteSize then .error .nameTooLong else Route.ofPath path

/-- The name of a file to create. With a slash at the end of its path it is refused as a directory,
once the names in front of the last one have led to one. -/
def newName (folder : Folder) (path : String) : Except SystemError String := do
  let route ← openingRoute path
  if route.asksForDirectory then
    let _ ← folder.follow { route with names := route.names.dropLast ++ ["."] }
    throw .isDirectory
  match ← folder.follow route with
  | .folder | .outside => throw .isDirectory
  | .file name => return name

/-- Creates a file. One that would get too long is left empty. -/
def create (folder : Folder) (path : String) (length : Nat) :
    Except SystemError Store.File × Folder :=
  match folder.newName path with
  | .error e => (.error e, folder)
  | .ok name =>
    if folder.sizeLimit < length then (.error .fileTooLarge, folder.insert name (.zeros 0))
    else
      let file := Store.File.create folder.sizeLimit length
      (.ok file, folder.insert name file.content)

/-- The size a directory shows as a file. -/
def directorySize : Nat :=
  4096

/-- Opens a file. A directory can be opened for reading as well, though nothing is read from it. -/
def openFile (folder : Folder) (path : String) (writable : Bool) :
    Except SystemError Store.File := do
  match ← folder.find (← openingRoute path) with
  | .directory =>
    if writable then throw .isDirectory
    return {
      content := .zeros 0
      openedSize := directorySize
      writable := false
      sizeLimit := folder.sizeLimit }
  | .file content => return Store.File.ofContent folder.sizeLimit content writable

/-- Mounts a volume. The mount point has to be there, however long its path is; even so there is
no device to serve the volume through. -/
def attach (folder : Folder) (path : String) : Except SystemError Unit := do
  let _ ← folder.find (← Route.ofPath path)
  throw .noEntry

/-- Keeps what was written to a file. -/
def save (folder : Folder) (path : String) (file : Store.File) : Folder :=
  match Route.ofPath path >>= folder.follow with
  | .ok (.file name) => folder.insert name file.content
  | _ => folder

/-- The folder as a workspace. -/
def workspace : Workspace (StateM Folder) where
  create path length := modifyGet (·.create path length)
  openFile path writable := do
    return (← get).openFile path writable
  save path file := modify (·.save path file)
  attach path := return (← get).attach path

end Folder

end ChainFs.Tool
