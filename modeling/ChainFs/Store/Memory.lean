import ChainFs.Store.Basic

/-!
# Stores in memory

A store of fixed length whose bytes are all at hand. An access that reaches past the end is
refused as a whole, also an empty one that starts there.

This is the store that the statements about runs are made executable with: it never fails inside its
length, and what it holds can be compared.
-/

namespace ChainFs.Store

/-- A byte string as a store. -/
structure Memory where
  bytes : ByteArray

namespace Memory

/-- The store of `length` bytes that begins with `content` and is zero behind it. -/
def ofContent (length : Nat) (content : ByteArray) : Memory :=
  ⟨Bytes.padded (length - content.size) (content.extract 0 length)⟩

/-- Reads inside the bytes. -/
def read (store : Memory) (offset length : Nat) : Except Error ByteArray :=
  if offset + length ≤ store.bytes.size then
    .ok (store.bytes.extract offset (offset + length))
  else
    .error (.io (.pastEnd offset length))

/-- Overwrites inside the bytes. -/
def write (offset : Nat) (bytes : ByteArray) : Edit Memory Unit := fun ⟨held⟩ =>
  if offset + bytes.size ≤ held.size then
    .ok () ⟨Bytes.overlay held offset bytes⟩
  else
    .error (.io (.pastEnd offset bytes.size)) ⟨held⟩

theorem size_of_read {store : Memory} {offset length : Nat} {bytes : ByteArray}
    (h : store.read offset length = .ok bytes) : bytes.size = length := by
  unfold read at h
  split at h
  · cases h
    simp only [ByteArray.size_extract]
    omega
  · cases h

instance : Store Memory where
  size store := store.bytes.size
  read := read
  write := write
  flush := pure ()
  size_read := size_of_read

end Memory

end ChainFs.Store
