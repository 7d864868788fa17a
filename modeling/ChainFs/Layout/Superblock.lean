import ChainFs.Bytes
import ChainFs.Error

/-!
# The superblock

The 18 bytes that make a byte string a volume: a signature, a version, the block size as a power
of two, the number of blocks and the number of allocated ones.

There is no checksum. The signature, the version and a block size that can be shifted into 32 bits
are all that is checked here; whether the counts make sense is left to the layout, and the number of
allocated blocks is taken as it stands.

* `Superblock.decode` — reads them, naming the first thing that is wrong;
* `Superblock.encode` — writes them.
-/

namespace ChainFs

/-- What a superblock says about its volume. -/
structure Superblock where
  blockSize : UInt32
  blockCount : UInt32
  /-- How many blocks of the data region are allocated. -/
  allocCount : UInt32
  deriving DecidableEq, Repr

namespace Superblock

/-- The bytes every volume's superblock starts with. -/
def signature : ByteArray :=
  "MOROS FS".toUTF8

/-- The one version of the format. -/
def version : UInt8 :=
  1

/-- Signature, version, block size code, block count, allocation count. -/
def encodedSize : Nat :=
  8 + 1 + 1 + 4 + 4

/-- Where the allocation count stands in the superblock. -/
def allocCountOffset : Nat :=
  14

/-- The block size code of the smallest block is zero; each step doubles the size. -/
def smallestExponent : Nat :=
  9

/-- The largest code whose block size is still a 32-bit number. -/
def largestSizeCode : Nat :=
  22

/-- Reads a superblock from the start of a byte string. -/
def decode (bytes : ByteArray) : Except Error Superblock :=
  if bytes.size < encodedSize then
    .error (.invalidImage (.superblockTruncated bytes.size))
  else if (bytes.extract 0 8).data ≠ signature.data then
    .error (.invalidImage .badSignature)
  else if Bytes.get bytes 8 ≠ version then
    .error (.invalidImage (.unsupportedVersion (Bytes.get bytes 8).toNat))
  else if largestSizeCode < (Bytes.get bytes 9).toNat then
    .error (.invalidImage (.badBlockSizeCode (Bytes.get bytes 9).toNat))
  else
    .ok {
      blockSize := UInt32.ofNat (1 <<< (smallestExponent + (Bytes.get bytes 9).toNat))
      blockCount := UInt32.ofNat (Bytes.number bytes 10 4)
      allocCount := UInt32.ofNat (Bytes.number bytes 14 4) }

/-- The bytes of a superblock. The block size has to be a power of two of at least 512. -/
def encode (superblock : Superblock) : ByteArray :=
  signature
    ++ [version, UInt8.ofNat (superblock.blockSize.toNat.log2 - smallestExponent)].toByteArray
    ++ Bytes.ofNumber 4 superblock.blockCount.toNat
    ++ Bytes.ofNumber 4 superblock.allocCount.toNat

end Superblock

end ChainFs
