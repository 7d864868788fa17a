import ChainFs.Layout.Basic
import ChainFs.Store.Basic

/-!
# The bitmap of allocated blocks

One bit per block of the data region, the lowest bit of a byte first; a set bit says that the block
is in use. To look at a bit, one byte of the bitmap is read. To change it, the bitmap block that it
stands in is read and written back whole. Only the search for a free block may go through all of the
bitmap: it starts anew each time, at the first bitmap block, and reads one after the other until it
finds a clear bit.

* `Bitmap.locate` — where the bit of a block is;
* `Bitmap.isAllocated`, `Bitmap.allocate`, `Bitmap.free` — look at a bit, set it, clear it;
* `Bitmap.nextFree` — the first block whose bit is clear.

Nothing is remembered between two operations, neither a block of the bitmap nor where the last
search has ended.
-/

namespace ChainFs.Bitmap

variable {σ : Type} [Store σ]

/-! ### Bits of a byte -/

/-- Whether bit `k` of a byte is set. -/
def hasBit (byte : UInt8) (k : Nat) : Bool :=
  byte.toNat.testBit k

/-- The byte with bit `k` set or cleared. -/
def withBit (byte : UInt8) (k : Nat) (value : Bool) : UInt8 :=
  let mask := (1 : UInt8) <<< UInt8.ofNat k
  if value then byte ||| mask else byte &&& ~~~mask

/-- The position of the lowest clear bit of a byte, eight if there is none. -/
def lowestClear (byte : UInt8) : Nat :=
  (List.range 8).findIdx fun k => !hasBit byte k

/-- The position of the first clear bit of a block, looking from byte `i` on. -/
def firstClear? (block : ByteArray) (i : Nat) : Option Nat :=
  if h : i < block.size then
    if block[i] = 0xff then firstClear? block (i + 1)
    else some (8 * i + lowestClear block[i])
  else none
termination_by block.size - i

/-- The block with bit `k` of byte `i` set or cleared. -/
def blockWithBit (block : ByteArray) (i k : Nat) (value : Bool) : ByteArray :=
  if h : i < block.size then block.set i (withBit block[i] k value) else block

/-! ### Bits of the bitmap -/

/-- Where a bit is: in which block of the bitmap, in which of its bytes, at which place. -/
structure Position where
  block : Nat
  byte : Nat
  bit : Nat
  deriving DecidableEq, Repr

/-- Finds the bit of the block at an address. There is none for an address outside the data
region or off a block boundary, nor for the last blocks of a volume that the bitmap is too small
to speak of. -/
def locate (layout : Layout) (address : Nat) : Except Error Position :=
  if address % layout.blockSize ≠ 0 ∨ ¬ layout.InData address then
    .error (.invalidAddress address)
  else
    let index := (address - layout.dataAddress) / layout.blockSize
    let bits := 8 * layout.blockSize
    let block := layout.bitmapAddress + index / bits * layout.blockSize
    if layout.dataAddress ≤ block then
      .error (.invalidAddress address)
    else
      .ok { block, byte := index % bits / 8, bit := index % 8 }

/-- Whether the block at an address is in use. -/
def isAllocated (layout : Layout) (store : σ) (address : Nat) : Except Error Bool := do
  let position ← locate layout address
  let byte ← Store.read store (position.block + position.byte) 1
  return hasBit (Bytes.get byte 0) position.bit

/-- Sets or clears the bit of the block at an address and tells what it was before. -/
def assign (layout : Layout) (address : Nat) (value : Bool) : Edit σ Bool := do
  let position ← Edit.ofExcept (locate layout address)
  let block ← Edit.ask (Store.read · position.block layout.blockSize)
  Store.write position.block (blockWithBit block position.byte position.bit value)
  return hasBit (Bytes.get block position.byte) position.bit

/-- Marks a block as in use and tells whether it was so already. -/
def allocate (layout : Layout) (address : Nat) : Edit σ Bool :=
  assign layout address true

/-- Marks a block as free and tells whether it was in use. -/
def free (layout : Layout) (address : Nat) : Edit σ Bool :=
  assign layout address false

/-- Looks for a clear bit in `left` blocks of the bitmap, from block `i` on. -/
def nextFreeFrom (layout : Layout) (store : σ) : (i left : Nat) → Except Error Nat
  | _, 0 => .error .outOfSpace
  | i, left + 1 => do
    let block ← Store.read store (layout.bitmapAddress + i * layout.blockSize) layout.blockSize
    match firstClear? block 0 with
    | none => nextFreeFrom layout store (i + 1) left
    | some k =>
      let address := layout.dataAddress + (i * 8 * layout.blockSize + k) * layout.blockSize
      if layout.endAddress ≤ address then .error .outOfSpace else .ok address

/-- The address of the first free block. -/
def nextFree (layout : Layout) (store : σ) : Except Error Nat :=
  nextFreeFrom layout store 0 layout.bitmapBlocks

end ChainFs.Bitmap
