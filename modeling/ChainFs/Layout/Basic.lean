import ChainFs.Layout.Superblock

/-!
# Where things are on a volume

```text
0 .................. reserved area, 4096 blocks
superblockAddress .. superblock and a spare block
bitmapAddress ...... one bit per block of the data region
dataAddress ........ the root directory's first block, then every other block
endAddress
```

* `Layout` — the byte addresses of these regions;
* `Layout.ofSuperblock` — the layout of a volume, if it has room for a bitmap;
* `Layout.blockNumber`, `Layout.blockAddress` — blocks by number and by address.

The bitmap is as large as it can be while every bit of it speaks of a block that is there. A few
blocks at the end of a volume may be left over that no bit speaks of; they are inside the volume, so
a link may lead to one, but they are never taken. All of this is worked out from the superblock when
a volume is opened, and then kept.
-/

namespace ChainFs

/-- The byte addresses of a volume's regions. -/
structure Layout where
  blockSize : Nat
  blockCount : Nat
  superblockAddress : Nat
  bitmapAddress : Nat
  dataAddress : Nat
  deriving DecidableEq, Repr

namespace Layout

/-- The blocks in front of the superblock, left to whatever boots from the disk. -/
def reservedBlocks : Nat :=
  4096

/-- A chained block starts with the number of the next block. -/
def linkSize : Nat :=
  4

/-- Where the superblock stands for a block size. -/
def superblockAddressFor (blockSize : Nat) : Nat :=
  reservedBlocks * blockSize

/-- The layout of the volume a superblock describes. Of the blocks behind the superblock and its
spare, each bitmap block serves as many data blocks as it has bits. -/
def ofSuperblock (superblock : Superblock) (configured : UInt32) : Except Error Layout :=
  if superblock.blockSize ≠ configured then
    .error (.invalidImage (.blockSizeMismatch superblock.blockSize.toNat configured.toNat))
  else
    let blockSize := configured.toNat
    let blockCount := superblock.blockCount.toNat
    let superblockAddress := superblockAddressFor blockSize
    let bitmapAddress := superblockAddress + 2 * blockSize
    let bits := 8 * blockSize
    let firstBitmapBlock := bitmapAddress / blockSize
    if blockCount ≤ firstBitmapBlock then
      .error (.invalidImage (.noRoomPastSuperblock blockCount))
    else
      let bitmapBlocks := (blockCount - firstBitmapBlock) * bits / (bits + 1) / bits
      if bitmapBlocks = 0 then
        .error (.invalidImage (.noRoomForBitmap blockCount))
      else
        .ok {
          blockSize
          blockCount
          superblockAddress
          bitmapAddress
          dataAddress := bitmapAddress + bitmapBlocks * blockSize }

/-- The bytes of a chained block that hold content. -/
def payloadSize (layout : Layout) : Nat :=
  layout.blockSize - linkSize

/-- The first address past the last block. -/
def endAddress (layout : Layout) : Nat :=
  layout.blockCount * layout.blockSize

/-- How many blocks the bitmap takes. -/
def bitmapBlocks (layout : Layout) : Nat :=
  (layout.dataAddress - layout.bitmapAddress) / layout.blockSize

/-- How many blocks the bitmap can speak of. -/
def bitmapBits (layout : Layout) : Nat :=
  layout.bitmapBlocks * 8 * layout.blockSize

/-- Whether an address lies in the data region. -/
def InData (layout : Layout) (address : Nat) : Prop :=
  layout.dataAddress ≤ address ∧ address < layout.endAddress

instance (layout : Layout) (address : Nat) : Decidable (layout.InData address) :=
  inferInstanceAs (Decidable (_ ∧ _))

/-- The address of a block by its number. -/
def blockAddress (layout : Layout) (block : Nat) : Nat :=
  block * layout.blockSize

/-- The number of the block at an address, when it is a 32-bit number and the address is at a
block boundary. -/
def blockNumber (layout : Layout) (address : Nat) : Except Error Nat :=
  if address % layout.blockSize ≠ 0 ∨ UInt32.size ≤ address / layout.blockSize then
    .error (.invalidAddress address)
  else
    .ok (address / layout.blockSize)

end Layout

end ChainFs
