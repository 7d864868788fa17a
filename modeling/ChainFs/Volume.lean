import ChainFs.Directory.Basic
import ChainFs.Path

/-!
# Volumes

A volume is a tree of directories and files in a store. Once its layout is known everything else
is read from the store at each call, so the layout is all there is to an open volume.

* `Volume.load` — the layout of the volume in a store;
* `Volume.format` — an empty volume that fills the store;
* `Volume.scan`, `Volume.lookup`, `Volume.list`, `Volume.read`, `Volume.usage` — questions;
* `Volume.write`, `Volume.create`, `Volume.makeDirectory`, `Volume.createFile` — changes.

The changes take the time of the call in seconds since the epoch.

Every change finds its node first and checks what it was asked for. Only then does it write, the
record of the node before anything else, so that a size that was recorded is never too small for
what follows.
-/

namespace ChainFs

/-- What is said of an entry when it is looked up. -/
structure Stat where
  kind : Kind
  size : Nat
  mtime : UInt64
  deriving DecidableEq, Repr

/-- How full a volume is. -/
structure Usage where
  blockSize : Nat
  blockCount : Nat
  allocCount : Nat
  deriving DecidableEq, Repr

/-- The blocks that are not counted as allocated, those in front of the data region included. -/
def Usage.freeBlocks (usage : Usage) : Nat :=
  usage.blockCount - usage.allocCount

namespace Volume

variable {σ : Type} [Store σ]

/-! ### Opening and formatting -/

/-- The superblock, from the block it stands in. -/
def superblockAt (store : σ) (address blockSize : Nat) : Except Error Superblock := do
  Superblock.decode (← Store.read store address blockSize)

/-- Checks that a store holds a volume of a block size and finds its layout. -/
def load (store : σ) (blockSize : UInt32) : Except Error Layout :=
  let address := Layout.superblockAddressFor blockSize.toNat
  if Store.size store < address + blockSize.toNat then
    .error (.invalidImage (.noSuperblock (Store.size store)))
  else do
    let superblock ← superblockAt store address blockSize.toNat
    let layout ← Layout.ofSuperblock superblock blockSize
    if Store.size store < layout.endAddress then
      .error (.invalidImage (.shorterThanBlocks (Store.size store) layout.blockCount))
    else .ok layout

/-- Blocks are powers of two of at least 512 bytes. -/
def isBlockSize (size : Nat) : Bool :=
  512 ≤ size && size.isPowerOfTwo

/-- The superblock of a new volume that fills a store of `size` bytes. -/
def newSuperblock (size : Nat) (blockSize : UInt32) : Except Error Superblock :=
  if !isBlockSize blockSize.toNat then
    .error (.invalidImage (.unsupportedBlockSize blockSize.toNat))
  else if UInt32.size ≤ size / blockSize.toNat then
    .error (.invalidImage .tooManyBlocks)
  else
    .ok { blockSize, blockCount := UInt32.ofNat (size / blockSize.toNat), allocCount := 0 }

/-- Clears `count` blocks from an address on, one after the other. -/
def clearBlocks (blockSize : Nat) : (count address : Nat) → Edit σ Unit
  | 0, _ => pure ()
  | count + 1, address => do
    Store.write address (Bytes.zeros blockSize)
    clearBlocks blockSize count (address + blockSize)

/-- Makes an empty volume of the whole store. The old superblock is cleared first and the new one
is written last, so the store holds no volume in between. -/
def format (blockSize : UInt32) : Edit σ Layout := do
  let superblock ← Edit.ask fun store => newSuperblock (Store.size store) blockSize
  let layout ← Edit.ofExcept (Layout.ofSuperblock superblock blockSize)
  Store.write layout.superblockAddress (Bytes.zeros layout.blockSize)
  clearBlocks layout.blockSize layout.bitmapBlocks layout.bitmapAddress
  let _ ← Bitmap.allocate layout layout.dataAddress
  Store.write layout.dataAddress (Bytes.zeros layout.blockSize)
  Store.write layout.superblockAddress { superblock with allocCount := 1 }.encode
  Store.flush
  return layout

/-! ### Questions -/

/-- Follows names downwards from a node. A missing name leads nowhere, and so does any name below
a file. -/
def descend (layout : Layout) (store : σ) : Node → List String → Except Error (Option Node)
  | node, [] => .ok (some node)
  | node, name :: rest =>
    if !node.isDirectory then .ok none
    else do
      match ← Directory.find layout store node.record.address name with
      | none => .ok none
      | some child => descend layout store child rest

/-- The node a path leads to from the root, if there is one. -/
def scan (layout : Layout) (store : σ) (path : String) : Except Error (Option Node) :=
  descend layout store (Node.root layout) (Path.components path)

/-- The node a path leads to. -/
def resolve (layout : Layout) (store : σ) (path : String) : Except Error Node := do
  match ← scan layout store path with
  | some node => .ok node
  | none => .error (.notFound path)

/-- The size of a node. The root has no record to keep it, so its size is added up. -/
def nodeSize (layout : Layout) (store : σ) (node : Node) : Except Error Nat :=
  match node.recordAddress with
  | none => Directory.liveSize layout store node.record.address
  | some _ => .ok node.record.size.toNat

/-- Kind, size and mtime of what a path leads to. -/
def lookup (layout : Layout) (store : σ) (path : String) : Except Error Stat := do
  let node ← resolve layout store path
  let size ← nodeSize layout store node
  return { kind := node.record.kind, size, mtime := node.record.mtime }

/-- The entries of a directory, in their order. -/
def list (layout : Layout) (store : σ) (path : String) : Except Error (Array Node) := do
  let node ← resolve layout store path
  if !node.isDirectory then .error (.notDirectory path)
  else Directory.nodes layout store node.record.address

/-- At most `length` bytes of a file from `offset` on. -/
def read (layout : Layout) (store : σ) (path : String) (offset length : Nat) :
    Except Error ByteArray := do
  let node ← resolve layout store path
  if node.isDirectory then .error (.isDirectory path)
  else Chain.readRange layout store node.record.address node.record.size.toNat offset length

/-- How full the volume is, as its superblock says now. -/
def usage (layout : Layout) (store : σ) : Except Error Usage := do
  let superblock ← superblockAt store layout.superblockAddress layout.blockSize
  return {
    blockSize := layout.blockSize
    blockCount := layout.blockCount
    allocCount := superblock.allocCount.toNat }

/-! ### Changes -/

/-- The size of a file after `length` bytes were written at `offset`. -/
def grownSize (node : Node) (offset length : Nat) : Except Error UInt32 :=
  let size := max (offset + length) node.record.size.toNat
  if size < UInt32.size then .ok (UInt32.ofNat size) else .error .fileTooLarge

/-- Writes data into a file at `offset`, letting it grow as needed, and tells how many bytes were
written. The new size is recorded before the content is written. -/
def write (layout : Layout) (now : UInt64) (path : String) (offset : Nat) (data : ByteArray) :
    Edit σ Nat := do
  let node ← Edit.ask (resolve layout · path)
  if node.isDirectory then throw (.isDirectory path)
  else if data.size = 0 then pure 0
  else do
    let size ← Edit.ofExcept (grownSize node offset data.size)
    Directory.updateNode node size now
    Chain.writeRange layout node.record.address offset data
    return data.size

/-- Creates an entry in the directory a path leads to. -/
def create (layout : Layout) (now : UInt64) (parent name : String) (kind : Kind) :
    Edit σ Node := do
  let node ← Edit.ask (resolve layout · parent)
  Directory.create layout node name kind now

/-- Creates an entry at a path. -/
def createAt (layout : Layout) (now : UInt64) (path : String) (kind : Kind) : Edit σ Node := do
  let (parent, name) ← Edit.ofExcept (Path.splitLast path)
  create layout now parent name kind

/-- Creates a directory at a path. -/
def makeDirectory (layout : Layout) (now : UInt64) (path : String) : Edit σ Node :=
  createAt layout now path .directory

/-- Creates an empty file at a path. -/
def createFile (layout : Layout) (now : UInt64) (path : String) : Edit σ Node :=
  createAt layout now path .file

end Volume

end ChainFs
