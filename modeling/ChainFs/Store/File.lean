import ChainFs.Bytes.Sparse
import ChainFs.Store.Basic

/-!
# Stores in a file

A file is read and written by position. Its length as a store is the one seen when it was opened,
while a write past the end lets the file itself grow, with zero bytes in any gap. How far it can
grow depends on where it is stored, so every open file knows its own limit. A file opened for
reading refuses every write, even an empty one.

* `File.create`, `File.ofContent` — files that were just made or opened;
* `File.read`, `File.write` — the accesses, with what the host system refuses.
-/

namespace ChainFs.Store

/-- An open file. -/
structure File where
  /-- What the file holds now. -/
  content : Bytes.Sparse
  /-- How long it was when it was opened. -/
  openedSize : Nat
  writable : Bool
  /-- The length beyond which the host system does not let the file grow. -/
  sizeLimit : Nat

namespace File

/-- Positions are signed 64-bit numbers: an access has to end below this one. -/
def positionLimit : Nat :=
  UInt64.size / 2

/-- A new file of `length` zero bytes. -/
def create (sizeLimit length : Nat) : File :=
  ⟨.zeros length, length, true, sizeLimit⟩

/-- Opens a file with this content. -/
def ofContent (sizeLimit : Nat) (content : Bytes.Sparse) (writable : Bool) : File :=
  ⟨content, content.size, writable, sizeLimit⟩

/-- Reads from the file; nothing is asked of it for an empty read. -/
def read (file : File) (offset length : Nat) : Except Error ByteArray :=
  if length = 0 then .ok ByteArray.empty
  else if positionLimit ≤ offset + length then .error (.io (.system .invalidArgument))
  else if offset + length ≤ file.content.size then .ok (file.content.read offset length)
  else .error (.io .shortRead)

/-- Writes to the file, which grows as needed. What a file holds can be written to even if it is
longer than it could have grown. -/
def write (offset : Nat) (bytes : ByteArray) : Edit File Unit :=
  fun ⟨content, openedSize, writable, sizeLimit⟩ =>
    if !writable then .error .readOnly ⟨content, openedSize, writable, sizeLimit⟩
    else if bytes.size = 0 then .ok () ⟨content, openedSize, writable, sizeLimit⟩
    else if positionLimit ≤ offset + bytes.size then
      .error (.io (.system .invalidArgument)) ⟨content, openedSize, writable, sizeLimit⟩
    else if max sizeLimit content.size < offset + bytes.size then
      .error (.io (.system .fileTooLarge)) ⟨content, openedSize, writable, sizeLimit⟩
    else
      .ok () ⟨content.write offset bytes, openedSize, writable, sizeLimit⟩

theorem size_of_read {file : File} {offset length : Nat} {bytes : ByteArray}
    (h : file.read offset length = .ok bytes) : bytes.size = length := by
  unfold read at h
  split at h
  · cases h; simp_all
  · split at h
    · cases h
    · split at h
      · cases h
        exact Bytes.Sparse.size_read ..
      · cases h

instance : Store File where
  size := openedSize
  read := read
  write := write
  flush := pure ()
  size_read := size_of_read

end File

end ChainFs.Store
