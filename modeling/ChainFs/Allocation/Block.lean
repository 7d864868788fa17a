import ChainFs.Allocation.Bitmap

/-!
# Taking and returning blocks

The bitmap says which blocks are in use, the superblock how many; the two change together.

A block is marked before it is cleared, and it is counted last. If a write fails in between, the
block may be lost, but two chains never come to own it, since a block that looks free is free. To
give a block back, its bit is cleared and then it is counted out; one that was free already is not
counted again. Its content stays, and is cleared when the block is taken the next time.

* `Block.acquire` — takes the first free block and clears it;
* `Block.release` — gives a block back.
-/

namespace ChainFs.Block

variable {σ : Type} [Store σ]

/-- Where the superblock counts the blocks in use. -/
def counterAddress (layout : Layout) : Nat :=
  layout.superblockAddress + Superblock.allocCountOffset

/-- How many blocks are in use, as the superblock counts them. -/
def allocCount (layout : Layout) (store : σ) : Except Error Nat :=
  Store.readNumber 4 store (counterAddress layout)

/-- Replaces the count of the superblock. -/
def recount (layout : Layout) (change : Nat → Nat) : Edit σ Unit := do
  let count ← Edit.ask (allocCount layout)
  Store.writeNumber 4 (counterAddress layout) (change count)

/-- One more, within 32 bits. -/
def increment (count : Nat) : Nat :=
  min (count + 1) (UInt32.size - 1)

/-- One less, but not below zero. -/
def decrement (count : Nat) : Nat :=
  count - 1

/-- Counts a block that was taken, unless it was in use already. -/
def countAcquired (layout : Layout) (wasAllocated : Bool) : Edit σ Unit :=
  if wasAllocated then pure () else recount layout increment

/-- Counts a block that was given back, if it was in use. -/
def countReleased (layout : Layout) (wasAllocated : Bool) : Edit σ Unit :=
  if wasAllocated then recount layout decrement else pure ()

/-- Takes the first free block: marks it, fills it with zeros and counts it. -/
def acquire (layout : Layout) : Edit σ Nat := do
  let address ← Edit.ask (Bitmap.nextFree layout)
  let wasAllocated ← Bitmap.allocate layout address
  Store.write address (Bytes.zeros layout.blockSize)
  countAcquired layout wasAllocated
  return address

/-- Gives a block back; only one that was in use is counted. -/
def release (layout : Layout) (address : Nat) : Edit σ Unit := do
  let wasAllocated ← Bitmap.free layout address
  countReleased layout wasAllocated

end ChainFs.Block
