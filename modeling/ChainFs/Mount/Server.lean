import ChainFs.Mount.Attributes
import ChainFs.Mount.Inodes
import ChainFs.Text.Lossy

/-!
# Serving a mounted volume

The kernel sends requests that name nodes by inode number; the server answers them from the
volume, handing out numbers as paths come into sight.

* `Options` — how a volume is mounted;
* `Request`, `Reply` — what is asked, what is answered;
* `Mount.serve` — answers one request;
* `Answer` — a reply, a refusal, or no answer at all: a record's mtime that is no time of the
  kernel brings the server down.

What a request does is written as steps on a state, so the order in which it looks at things can be
read off: a write and a new entry ask first whether the volume may be changed, and a parent that is
not known is refused before a name that is no text.
-/

namespace ChainFs

namespace Mount

/-- How a volume is mounted. -/
structure Options where
  readWrite : Bool
  /-- Whether users other than the one who mounts may use the volume. -/
  allowOther : Bool
  deriving DecidableEq, Repr

/-- The options as they are handed to the kernel. -/
def Options.kernelOptions (options : Options) : List String :=
  ["fsname=moros"]
    ++ (if options.readWrite then [] else ["ro"])
    ++ (if options.allowOther then ["allow_other"] else [])

/-- A request of the kernel. Names are bytes, offsets may be negative. -/
inductive Request
  | lookup (parent : Nat) (name : ByteArray)
  | getAttributes (inode : Nat)
  /-- Changes attributes; only a new size is of interest. -/
  | setAttributes (inode : Nat) (size? : Option Nat)
  | openFile (inode : Nat) (flags : Int)
  | openDirectory (inode : Nat)
  | read (inode : Nat) (offset : Int) (length : Nat)
  | readDirectory (inode : Nat) (offset : Int) (room : Nat)
  | write (inode : Nat) (offset : Int) (data : ByteArray)
  | makeDirectory (parent : Nat) (name : ByteArray)
  | createFile (parent : Nat) (name : ByteArray)
  | statistics

/-- The figures of a whole volume. -/
structure Statistics where
  blocks : Nat
  freeBlocks : Nat
  availableBlocks : Nat
  files : Nat
  freeFiles : Nat
  blockSize : Nat
  maxNameSize : Nat
  fragmentSize : Nat
  deriving DecidableEq, Repr

/-- The figures of a volume; files are not counted. -/
def Statistics.ofUsage (usage : Usage) : Statistics where
  blocks := usage.blockCount
  freeBlocks := usage.freeBlocks
  availableBlocks := usage.freeBlocks
  files := 0
  freeFiles := 0
  blockSize := usage.blockSize
  maxNameSize := Record.maxNameSize
  fragmentSize := usage.blockSize

/-- What a request is answered. -/
inductive Reply
  | entry (attributes : Attributes)
  | attributes (attributes : Attributes)
  | opened
  | content (bytes : ByteArray)
  /-- Entries of a directory, each with the offset behind it. -/
  | page (entries : List (Nat × DirectoryEntry))
  | written (count : Nat)
  | created (attributes : Attributes)
  | statistics (figures : Statistics)

/-- Why a request gets no reply. -/
inductive Failure
  | refused (cause : Error)
  /-- An mtime is beyond the times of the kernel, and the server ends. -/
  | timeOutOfRange (mtime : UInt64)
  deriving DecidableEq, Repr

/-- What becomes of a request. -/
inductive Answer
  | reply (reply : Reply)
  | refused (cause : Error)
  /-- There is no answer: the server goes down. -/
  | serverDown

/-- What requests change: the inode numbers handed out and the store. -/
structure State (σ : Type) where
  inodes : Inodes
  store : σ

/-- The work on one request. -/
abbrev Serving (σ : Type) : Type → Type :=
  EStateM Failure (State σ)

namespace Serving

variable {σ α : Type}

/-- A result that depends on nothing the server holds. -/
def ofExcept (result : Except Error α) : Serving σ α := fun state =>
  match result with
  | .ok answer => .ok answer state
  | .error e => .error (.refused e) state

/-- A question to the volume. -/
def ask (question : σ → Except Error α) : Serving σ α := fun state =>
  match question state.store with
  | .ok answer => .ok answer state
  | .error e => .error (.refused e) state

/-- A change of the volume. -/
def edit (act : Edit σ α) : Serving σ α := fun ⟨inodes, store⟩ =>
  match act store with
  | .ok a store => .ok a ⟨inodes, store⟩
  | .error e store => .error (.refused e) ⟨inodes, store⟩

/-- Refuses the request. -/
def refuse (cause : Error) : Serving σ α :=
  throw (.refused cause)

/-- The path behind an inode number. -/
def pathOf (inode : Nat) : Serving σ String := fun state =>
  match state.inodes.path? inode with
  | some path => .ok path state
  | none => .error (.refused (.notFound ("inode " ++ toString inode))) state

/-- The inode number of a path. -/
def inodeFor (path : String) : Serving σ Nat := fun ⟨inodes, store⟩ =>
  let (inode, inodes) := inodes.assign path
  .ok inode ⟨inodes, store⟩

end Serving

/-- Reads the name of a request, which has to be text. A refused name is told with replacement
characters where it is none. -/
def decodeName (name : ByteArray) : Except Error String :=
  match String.fromUTF8? name with
  | some text => .ok text
  | none => .error (.invalidName (Text.lossy name))

/-- Reads the offset of a request, which must not be negative. -/
def decodeOffset (offset : Int) : Except Error Nat :=
  if offset < 0 then .error (.invalidOffset offset) else .ok offset.toNat

/-- Whether a file is opened for anything but reading; the two lowest bits tell. -/
def opensForWriting (flags : Int) : Bool :=
  flags % 4 ≠ 0

end Mount

/-- A mounted volume. -/
structure Mount where
  layout : Layout
  options : Mount.Options
  deriving DecidableEq, Repr

namespace Mount

open Serving

variable {σ : Type} [Store σ]

/-- Refuses changes on a volume that is mounted for reading. -/
def requireWritable (mount : Mount) : Serving σ Unit :=
  if mount.options.readWrite then pure () else refuse .readOnly

/-- The attributes of what a path leads to, which gets an inode number if it has none. -/
def attributesAt (mount : Mount) (path : String) : Serving σ Attributes := do
  let stat ← ask (Volume.lookup mount.layout · path)
  let inode ← inodeFor path
  match Attributes.ofStat? mount.layout.blockSize inode stat with
  | some attributes => return attributes
  | none => throw (.timeOutOfRange stat.mtime)

/-- The attributes of an inode. -/
def attributesOf (mount : Mount) (inode : Nat) : Serving σ Attributes := do
  let path ← pathOf inode
  attributesAt mount path

/-- Looks a name up in a directory. -/
def lookup (mount : Mount) (parent : Nat) (name : ByteArray) : Serving σ Attributes := do
  let path ← pathOf parent
  let name ← ofExcept (decodeName name)
  attributesAt mount (Path.child path name)

/-- Changes attributes: files cannot be cut or extended this way, all else is let pass. -/
def setAttributes (mount : Mount) (inode : Nat) (size? : Option Nat) : Serving σ Attributes := do
  let attributes ← attributesOf mount inode
  if size?.getD attributes.size = attributes.size then pure attributes
  else do
    requireWritable mount
    refuse (.unsupported "truncate")

/-- Checks that a file can be opened. -/
def openFile (mount : Mount) (inode : Nat) (flags : Int) : Serving σ Unit := do
  let path ← pathOf inode
  let stat ← ask (Volume.lookup mount.layout · path)
  if stat.kind = .directory then refuse (.isDirectory path)
  else if opensForWriting flags then requireWritable mount
  else pure ()

/-- Checks that a directory can be opened. -/
def openDirectory (mount : Mount) (inode : Nat) : Serving σ Unit := do
  let path ← pathOf inode
  let stat ← ask (Volume.lookup mount.layout · path)
  if stat.kind = .directory then pure () else refuse (.notDirectory path)

/-- Reads from a file. -/
def read (mount : Mount) (inode : Nat) (offset : Int) (length : Nat) : Serving σ ByteArray := do
  let offset ← ofExcept (decodeOffset offset)
  let path ← pathOf inode
  ask (Volume.read mount.layout · path offset length)

/-- The children of a directory with their inode numbers. -/
def childEntries (path : String) : List Node → Serving σ (List DirectoryEntry)
  | [] => pure []
  | node :: rest => do
    let inode ← inodeFor (Path.child path node.record.name)
    let entries ← childEntries path rest
    return { inode, kind := node.record.kind, name := node.record.name } :: entries

/-- All entries of a directory, itself and its parent in front. -/
def entries (mount : Mount) (inode : Nat) : Serving σ (List DirectoryEntry) := do
  let path ← pathOf inode
  let nodes ← ask (Volume.list mount.layout · path)
  let parent ← inodeFor (Path.parent path)
  let children ← childEntries path nodes.toList
  return { inode, kind := .directory, name := "." }
    :: { inode := parent, kind := .directory, name := ".." }
    :: children

/-- Writes to a file. -/
def write (mount : Mount) (now : UInt64) (inode : Nat) (offset : Int) (data : ByteArray) :
    Serving σ Nat := do
  requireWritable mount
  let offset ← ofExcept (decodeOffset offset)
  let path ← pathOf inode
  edit (Volume.write mount.layout now path offset data)

/-- Creates an entry in a directory. -/
def create (mount : Mount) (now : UInt64) (parent : Nat) (name : ByteArray) (kind : Kind) :
    Serving σ Attributes := do
  requireWritable mount
  let path ← pathOf parent
  let name ← ofExcept (decodeName name)
  let _ ← edit (Volume.create mount.layout now path name kind)
  attributesAt mount (Path.child path name)

/-- The work on a request at a given time. -/
def reply (mount : Mount) (now : UInt64) : Request → Serving σ Reply
  | .lookup parent name => .entry <$> lookup mount parent name
  | .getAttributes inode => .attributes <$> attributesOf mount inode
  | .setAttributes inode size? => .attributes <$> setAttributes mount inode size?
  | .openFile inode flags => (fun _ => .opened) <$> openFile mount inode flags
  | .openDirectory inode => (fun _ => .opened) <$> openDirectory mount inode
  | .read inode offset length => .content <$> read mount inode offset length
  | .readDirectory inode offset room =>
    (.page <| DirectoryEntry.page · offset.toNat room) <$> entries mount inode
  | .write inode offset data => .written <$> write mount now inode offset data
  | .makeDirectory parent name => .entry <$> create mount now parent name .directory
  | .createFile parent name => .created <$> create mount now parent name .file
  | .statistics => (.statistics ∘ Statistics.ofUsage) <$> ask (Volume.usage mount.layout)

/-- Answers a request. -/
def serve (mount : Mount) (now : UInt64) (request : Request) (state : State σ) :
    Answer × State σ :=
  match reply mount now request state with
  | .ok reply state => (.reply reply, state)
  | .error (.refused cause) state => (.refused cause, state)
  | .error (.timeOutOfRange _) state => (.serverDown, state)

end Mount

end ChainFs
