import ChainFs.Directory.Cursor

/-!
# Directories

The entries of a directory are the records in its chain, from the front. A record is never moved or
taken out, so its place can stand for the node as long as the volume lives: what changes about an
entry is its size and its mtime, and these are rewritten where they are. A new record goes behind
the last one, or into a new block if there is no room for it. A directory other than the root counts
it in its own record before it is there.

* `Directory.find` — the entry of a name;
* `Directory.updateRecord` — a new size and mtime for an entry;
* `Directory.validateName` — which names an entry may have;
* `Directory.create` — a new entry at the end of a directory.
-/

namespace ChainFs.Directory

variable {σ : Type} [Store σ]

/-- The first entry with a name in the directory whose first block is at `address`. -/
def find (layout : Layout) (store : σ) (address : Nat) (name : String) :
    Except Error (Option Node) := do
  let (_, found) ← (Cursor.start layout address).seek layout store (·.record.name = name)
  return found

/-- All entries of the directory whose first block is at `address`, in their order. -/
def nodes (layout : Layout) (store : σ) (address : Nat) : Except Error (Array Node) := do
  let (_, nodes) ← (Cursor.start layout address).drain layout store #[]
  return nodes

/-- How many bytes the records of all entries take together. -/
def liveSize (layout : Layout) (store : σ) (address : Nat) : Except Error Nat := do
  let (cursor, _) ← (Cursor.start layout address).seek layout store fun _ => false
  return cursor.liveSize

/-- Rewrites size and mtime of the record at an address. -/
def updateRecord (address : Nat) (size : UInt32) (mtime : UInt64) : Edit σ Unit := do
  Store.writeNumber 4 (address + Record.sizeOffset) size.toNat
  Store.writeNumber 8 (address + Record.mtimeOffset) mtime.toNat

/-- A name is not empty, is none of the two that stand for directories themselves, has neither a
slash nor a zero character, and takes at most 255 bytes. -/
def validateName (name : String) : Except Error Unit :=
  if name = "" ∨ name = "." ∨ name = ".." ∨ '/' ∈ name.toList ∨ '\x00' ∈ name.toList then
    .error (.invalidName name)
  else if Record.maxNameSize < name.utf8ByteSize then
    .error (.nameTooLong name.utf8ByteSize)
  else
    .ok ()

/-- Rewrites size and mtime of a node; the root has no record and stays as it is. -/
def updateNode (node : Node) (size : UInt32) (mtime : UInt64) : Edit σ Unit :=
  match node.recordAddress with
  | some address => updateRecord address size mtime
  | none => pure ()

/-- The end of a directory that has no entry of this name yet. -/
def tailFor (layout : Layout) (store : σ) (address : Nat) (name : String) :
    Except Error Cursor := do
  match ← (Cursor.start layout address).seek layout store (·.record.name = name) with
  | (_, some _) => .error (.alreadyExists name)
  | (cursor, none) => .ok cursor

/-- The place for a record of `length` bytes behind the end of a directory: there if the block has
room for it, else in a new block of the chain. -/
def placeFor (layout : Layout) (tail : Cursor) (length : Nat) : Edit σ Nat :=
  if tail.offset + length ≤ layout.blockSize then
    pure (tail.block + tail.offset)
  else do
    let added ← Block.acquire layout
    Chain.link layout tail.block added
    return added + Cursor.firstRecord

/-- Whether a directory may get an entry of this name, as far as can be told without reading. -/
def checkNew (parent : Node) (name : String) : Except Error Unit := do
  validateName name
  if parent.isDirectory then .ok () else .error (.notDirectory parent.record.name)

/-- The size of a directory that gets a record of `length` bytes behind its end. -/
def grownSize (tail : Cursor) (length : Nat) : Except Error UInt32 :=
  if tail.liveSize + length < UInt32.size then .ok (UInt32.ofNat (tail.liveSize + length))
  else .error .fileTooLarge

/-- Takes the first block of a new entry and writes the entry's record behind the end of its
directory. -/
def append (layout : Layout) (tail : Cursor) (name : String) (kind : Kind) (mtime : UInt64) :
    Edit σ Node := do
  let address ← Block.acquire layout
  let record : Record := { kind, address, size := 0, mtime, name }
  let bytes ← Edit.ofExcept (record.encode layout.blockSize)
  let recordAddress ← placeFor layout tail record.encodedSize
  Store.write recordAddress bytes
  return ⟨record, some recordAddress⟩

/-- Creates an entry at the end of the directory `parent`. The size of the parent is rewritten
first, then the new block is taken, and the record is written last. -/
def create (layout : Layout) (parent : Node) (name : String) (kind : Kind) (mtime : UInt64) :
    Edit σ Node := do
  Edit.ofExcept (checkNew parent name)
  let tail ← Edit.ask (tailFor layout · parent.record.address name)
  let size ← Edit.ofExcept (grownSize tail (Record.headerSize + name.utf8ByteSize))
  updateNode parent size mtime
  append layout tail name kind mtime

end ChainFs.Directory
