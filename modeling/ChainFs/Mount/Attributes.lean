import ChainFs.Volume

/-!
# Attributes and directory pages

What the kernel is told of a node, and how the entries of a directory are cut into replies.

Attributes are made of what a lookup tells of a node, under the number that the node has for the
kernel. Permissions go by the kind, and of all times only the mtime is recorded. It counts seconds
in 64 bits while the times of the kernel end with 63, so not every record has attributes. A page is
filled as long as the next entry fits, and each entry carries the place where the next page would
have to start behind it.

* `Attributes` — the attributes of a node, with `Attributes.ofStat?`;
* `DirectoryEntry`, `DirectoryEntry.page` — the entries that fit into one reply.
-/

namespace ChainFs.Mount

/-- For how many seconds the kernel may rely on an answer. -/
def timeToLive : Nat :=
  1

/-- The generation of every inode: numbers are never used again. -/
def generation : Nat :=
  0

/-- The attributes of a node: what is told of this node in particular. All else follows from it or
is the same for every node. Everything belongs to the superuser. -/
structure Attributes where
  inode : Nat
  kind : Kind
  size : Nat
  mtime : UInt64
  /-- The size of the volume's blocks, told as the size that suits reads and writes. -/
  blockSize : Nat
  deriving DecidableEq, Repr

namespace Attributes

/-- The kernel counts space in units of this size, whatever the blocks of the volume. -/
def spaceUnit : Nat :=
  512

/-- How many units of space the content takes. -/
def blocks (attributes : Attributes) : Nat :=
  (attributes.size + spaceUnit - 1) / spaceUnit

/-- The last access, which is not recorded. -/
def atime (_ : Attributes) : UInt64 :=
  0

/-- The last change, recorded only as the time of modification. -/
def ctime (attributes : Attributes) : UInt64 :=
  attributes.mtime

/-- The creation, for which there is no other time either. -/
def crtime (attributes : Attributes) : UInt64 :=
  attributes.mtime

/-- The bits that tell the type of a node. -/
def typeBits : Kind → Nat
  | .directory => 0o040000
  | .file => 0o100000

/-- Who may do what. -/
def permissions : Kind → Nat
  | .directory => 0o755
  | .file => 0o644

/-- Type and permissions in one number. -/
def mode (attributes : Attributes) : Nat :=
  typeBits attributes.kind + permissions attributes.kind

/-- How many names the node has; a directory is also its own `.` entry. -/
def links (attributes : Attributes) : Nat :=
  match attributes.kind with
  | .directory => 2
  | .file => 1

/-- The owner. -/
def userId (_ : Attributes) : Nat :=
  0

/-- The group of the owner. -/
def groupId (_ : Attributes) : Nat :=
  0

/-- No node is a device. -/
def deviceId (_ : Attributes) : Nat :=
  0

/-- There are no special rules for any node. -/
def flags (_ : Attributes) : Nat :=
  0

/-- Times of the kernel are signed 64-bit seconds: an mtime has to be below this one. -/
def timeLimit : Nat :=
  UInt64.size / 2

/-- The attributes of a node that was looked up, on a volume with blocks of the given size. There
are none if its mtime is no time the kernel knows. -/
def ofStat? (blockSize inode : Nat) (stat : Stat) : Option Attributes :=
  if stat.mtime.toNat < timeLimit then
    some { inode, kind := stat.kind, size := stat.size, mtime := stat.mtime, blockSize }
  else none

end Attributes

/-- An entry of a directory as the kernel sees it. -/
structure DirectoryEntry where
  inode : Nat
  kind : Kind
  name : String
  deriving DecidableEq, Repr

namespace DirectoryEntry

/-- The number that stands for a kind in directory replies. -/
def typeCode (entry : DirectoryEntry) : Nat :=
  match entry.kind with
  | .directory => 4
  | .file => 8

/-- How many bytes of a reply an entry takes: a header and the name, filled up to full words. -/
def replySize (entry : DirectoryEntry) : Nat :=
  24 + (entry.name.utf8ByteSize + 7) / 8 * 8

/-- As many entries as fit into `room` bytes, each with the offset behind it; the first one stands
at `offset`. -/
def fill (offset room : Nat) : List DirectoryEntry → List (Nat × DirectoryEntry)
  | [] => []
  | entry :: rest =>
    if entry.replySize ≤ room then
      (offset + 1, entry) :: fill (offset + 1) (room - entry.replySize) rest
    else []

/-- The page of a listing that starts behind the first `offset` entries. -/
def page (entries : List DirectoryEntry) (offset room : Nat) : List (Nat × DirectoryEntry) :=
  fill offset room (entries.drop offset)

end DirectoryEntry

end ChainFs.Mount
