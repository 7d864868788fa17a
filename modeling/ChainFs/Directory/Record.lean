import ChainFs.Bytes
import ChainFs.Error

/-!
# Directory records

```text
kind 1 | first block 4 | size 4 | mtime 8 | name size 1 | name
```

Numbers have their most significant byte first, and the first block is stored by its number.

A name has 1 to 255 bytes, so a name size of zero is no name: the block is free from there on. The
length of a record follows from its name size and from nothing else. So a record that stands for no
entry, because its kind has no meaning, its name is no text or it has no first block, can still be
passed over.

* `Record` — one entry of a directory, with `Record.encode`;
* `Slot` — what stands at some place of a directory block, with `Slot.decode`.
-/

namespace ChainFs

/-- Directories and files. -/
inductive Kind
  | directory
  | file
  deriving DecidableEq, Repr

namespace Kind

/-- The byte that stands for a kind. -/
def code : Kind → UInt8
  | .directory => 0
  | .file => 1

/-- The kind a byte stands for, if any. -/
def ofCode? : UInt8 → Option Kind
  | 0 => some .directory
  | 1 => some .file
  | _ => none

@[simp] theorem ofCode?_code (kind : Kind) : ofCode? kind.code = some kind := by
  cases kind <;> rfl

end Kind

/-- One entry of a directory. -/
structure Record where
  kind : Kind
  /-- The address of the entry's first block; zero marks an entry that was deleted. -/
  address : Nat
  size : UInt32
  /-- Seconds since the epoch. -/
  mtime : UInt64
  name : String
  deriving DecidableEq, Repr

namespace Record

/-- Kind, first block, size, mtime and the size of the name. -/
def headerSize : Nat :=
  1 + 4 + 4 + 8 + 1

/-- The longest name, in bytes. -/
def maxNameSize : Nat :=
  255

/-- Where the size stands in a record. -/
def sizeOffset : Nat :=
  5

/-- Where the mtime stands in a record. -/
def mtimeOffset : Nat :=
  9

/-- Where the size of the name stands in a record. -/
def nameSizeOffset : Nat :=
  17

/-- How many bytes a record takes. -/
def encodedSize (record : Record) : Nat :=
  headerSize + record.name.utf8ByteSize

def isDirectory (record : Record) : Bool :=
  record.kind = .directory

/-- The root directory, which no record describes. -/
def root (dataAddress : Nat) : Record where
  kind := .directory
  address := dataAddress
  size := 0
  mtime := 0
  name := ""

/-- The bytes of a record. A name has 1 to 255 bytes, and the first block is at a block boundary
and has a 32-bit number. -/
def encode (blockSize : Nat) (record : Record) : Except Error ByteArray :=
  let nameSize := record.name.utf8ByteSize
  if nameSize = 0 then .error (.invalidName record.name)
  else if maxNameSize < nameSize then .error (.nameTooLong nameSize)
  else if record.address % blockSize ≠ 0 ∨ UInt32.size ≤ record.address / blockSize then
    .error (.invalidAddress record.address)
  else
    .ok ([record.kind.code].toByteArray
      ++ Bytes.ofNumber 4 (record.address / blockSize)
      ++ Bytes.ofNumber 4 record.size.toNat
      ++ Bytes.ofNumber 8 record.mtime.toNat
      ++ [UInt8.ofNat nameSize].toByteArray
      ++ record.name.toUTF8)

end Record

/-- What stands at a place of a directory block. -/
inductive Slot
  | record (record : Record) (length : Nat)
  /-- A whole record, but of a kind that has no meaning. -/
  | unknownKind (code : UInt8) (length : Nat)
  /-- A whole record whose name is no text. -/
  | malformedName (length : Nat)
  /-- The free rest of the block: a name size of zero, or too little room for a record. -/
  | vacant
  deriving DecidableEq, Repr

namespace Slot

/-- How many bytes the record in a slot takes. -/
def length? : Slot → Option Nat
  | .record _ length => some length
  | .unknownKind _ length => some length
  | .malformedName length => some length
  | .vacant => none

/-- Reads what stands at `offset` of a directory block. -/
def decode (blockSize : Nat) (block : ByteArray) (offset : Nat) : Slot :=
  let nameSize := (Bytes.get block (offset + Record.nameSizeOffset)).toNat
  let nameStart := offset + Record.headerSize
  let length := Record.headerSize + nameSize
  if block.size < nameStart ∨ nameSize = 0 ∨ block.size < nameStart + nameSize then .vacant
  else
    match Kind.ofCode? (Bytes.get block offset) with
    | none => .unknownKind (Bytes.get block offset) length
    | some kind =>
      match String.fromUTF8? (block.extract nameStart (nameStart + nameSize)) with
      | none => .malformedName length
      | some name =>
        .record {
          kind
          address := Bytes.number block (offset + 1) 4 * blockSize
          size := UInt32.ofNat (Bytes.number block (offset + Record.sizeOffset) 4)
          mtime := UInt64.ofNat (Bytes.number block (offset + Record.mtimeOffset) 8)
          name } length

/-- A slot with a record is not empty and lies inside its block. -/
theorem length_bounds {blockSize offset length : Nat} {block : ByteArray}
    (h : (decode blockSize block offset).length? = some length) :
    Record.headerSize < length ∧ offset + length ≤ block.size := by
  unfold decode at h
  dsimp only at h
  split at h
  · cases h
  · suffices h' : Record.headerSize
        + (Bytes.get block (offset + Record.nameSizeOffset)).toNat = length by omega
    split at h
    · exact Option.some.inj h
    · split at h <;> exact Option.some.inj h

/-- Reads a record that has to be well formed, at `offset` of the directory block at `address`. -/
def decodeStrict (blockSize : Nat) (block : ByteArray) (offset address : Nat) :
    Except Error Slot :=
  match decode blockSize block offset with
  | .malformedName _ => .error (.invalidEncoding (address + offset))
  | slot => .ok slot

end Slot

end ChainFs
