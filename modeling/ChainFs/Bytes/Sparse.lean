import ChainFs.Bytes
import Std.Data.TreeMap.Lemmas

/-!
# Byte strings with holes

A byte string of any length that keeps only the pages something was written to. Everything else is
zero and takes no room.

* `Sparse.get` — the byte at a position;
* `Sparse.read`, `Sparse.write` — a stretch of bytes. By `Sparse.get_read` and `Sparse.get_write`
  pages make no difference to what they do;
* `Sparse.written` — where the bytes are that are kept.

A volume starts with a reserved area of 4096 blocks that nothing is ever written to, so an image in
memory would be mostly zeros. Which pages are kept is not part of what such a byte string is: two of
them with the same bytes may differ there, and nothing but `Sparse.written` can tell.
-/

namespace ChainFs.Bytes

/-! ### Stretches of a byte string -/

/-- The `length` bytes from `start` on, zero past the end. -/
def slice (bytes : ByteArray) (start length : Nat) : ByteArray :=
  let found := bytes.extract start (start + length)
  padded (length - found.size) found

/-- The `base` with `bytes` written over it from `offset` on, after zero bytes if the base ends
before. -/
def patch (base : ByteArray) (offset : Nat) (bytes : ByteArray) : ByteArray :=
  overlay (padded (offset - base.size) base) offset bytes

@[simp] theorem size_slice (bytes : ByteArray) (start length : Nat) :
    (slice bytes start length).size = length := by
  simp only [slice, size_padded, ByteArray.size_extract]
  omega

theorem get_slice (bytes : ByteArray) (start length i : Nat) :
    get (slice bytes start length) i = if i < length then get bytes (start + i) else 0 := by
  simp only [slice, get_padded, get_extract, Nat.add_lt_add_iff_left]

theorem get_patch (base : ByteArray) (offset : Nat) (bytes : ByteArray) (i : Nat) :
    get (patch base offset bytes) i =
      if offset ≤ i ∧ i < offset + bytes.size then get bytes (i - offset) else get base i := by
  rw [patch, get_overlay bytes (by rw [size_padded]; omega), get_padded]

/-- A byte string whose pages are kept by their numbers. A page that ends early is zero behind its
end, and one that is not kept is zero. -/
structure Sparse where
  size : Nat
  pages : Std.TreeMap Nat ByteArray

namespace Sparse

/-- How many bytes a page holds at most. -/
def pageSize : Nat :=
  4096

/-- Nothing but zero bytes. -/
def zeros (size : Nat) : Sparse :=
  ⟨size, ∅⟩

/-- What is kept of a page. -/
def page (s : Sparse) (number : Nat) : ByteArray :=
  s.pages.getD number ByteArray.empty

/-- The byte at a position. -/
def get (s : Sparse) (i : Nat) : UInt8 :=
  Bytes.get (s.page (i / pageSize)) (i % pageSize)

/-- How many bytes from a position on lie in the same page. -/
def pageRest (position : Nat) : Nat :=
  pageSize - position % pageSize

theorem pageRest_pos (position : Nat) : 0 < pageRest position := by
  have : position % pageSize < pageSize := Nat.mod_lt _ (by decide)
  simp only [pageRest]
  omega

/-! ### Reading -/

/-- Appends `length` bytes from `offset` on, page by page. -/
def readOnto (s : Sparse) (out : ByteArray) (offset length : Nat) : ByteArray :=
  if length = 0 then out
  else
    let n := min length (pageRest offset)
    readOnto s (out ++ slice (s.page (offset / pageSize)) (offset % pageSize) n)
      (offset + n) (length - n)
termination_by length
decreasing_by
  have := pageRest_pos offset
  omega

/-- The `length` bytes from `offset` on, zero past the end. -/
def read (s : Sparse) (offset length : Nat) : ByteArray :=
  readOnto s ByteArray.empty offset length

@[simp] theorem size_readOnto (s : Sparse) (out : ByteArray) (offset length : Nat) :
    (s.readOnto out offset length).size = out.size + length := by
  fun_induction readOnto s out offset length with
  | case1 => rfl
  | case2 out offset length _ n ih =>
    rw [ih, ByteArray.size_append, size_slice]
    omega

@[simp] theorem size_read (s : Sparse) (offset length : Nat) :
    (s.read offset length).size = length := by
  simp [read]

theorem get_readOnto (s : Sparse) (out : ByteArray) (offset length i : Nat) :
    Bytes.get (s.readOnto out offset length) i =
      if i < out.size then Bytes.get out i
      else if i < out.size + length then s.get (offset + (i - out.size))
      else 0 := by
  fun_induction readOnto s out offset length with
  | case1 out offset =>
    split
    · rfl
    · rename_i h
      rw [if_neg (by omega), Bytes.get, dif_neg h]
  | case2 out offset length hlength n ih =>
    have hrest := pageRest_pos offset
    have hn : n = min length (pageRest offset) := rfl
    rw [ih, ByteArray.size_append, size_slice, get_append, get_slice]
    by_cases hout : i < out.size
    · rw [if_pos (by omega), if_pos hout, if_pos hout]
    · rw [if_neg hout, if_neg hout]
      by_cases hpage : i < out.size + n
      · rw [if_pos hpage, if_pos (by omega), if_pos (by omega), get]
        have hlt : offset % pageSize + (i - out.size) < pageSize := by
          simp only [pageRest] at hn
          omega
        have hdiv : (offset + (i - out.size)) / pageSize = offset / pageSize := by
          simp only [pageSize] at hlt ⊢
          omega
        have hmod : (offset + (i - out.size)) % pageSize = offset % pageSize + (i - out.size) := by
          simp only [pageSize] at hlt ⊢
          omega
        rw [hdiv, hmod]
      · rw [if_neg hpage]
        by_cases hend : i < out.size + length
        · rw [if_pos (by omega), if_pos hend]
          congr 1
          omega
        · rw [if_neg (by omega), if_neg hend]

theorem get_read (s : Sparse) (offset length i : Nat) :
    Bytes.get (s.read offset length) i = if i < length then s.get (offset + i) else 0 := by
  simp [read, get_readOnto]

/-! ### Writing -/

/-- Changes one page. -/
def updatePage (s : Sparse) (number : Nat) (change : ByteArray → ByteArray) : Sparse :=
  { s with pages := s.pages.alter number fun kept? => some (change (kept?.getD ByteArray.empty)) }

/-- Writes the bytes from `done` on, page by page. -/
def writeFrom (s : Sparse) (offset : Nat) (bytes : ByteArray) (done : Nat) : Sparse :=
  if done < bytes.size then
    let position := offset + done
    let n := min (bytes.size - done) (pageRest position)
    writeFrom
      (s.updatePage (position / pageSize)
        (patch · (position % pageSize) (bytes.extract done (done + n))))
      offset bytes (done + n)
  else s
termination_by bytes.size - done
decreasing_by
  have := pageRest_pos (offset + done)
  omega

/-- Writes bytes over what is there from `offset` on; the byte string grows as needed. -/
def write (s : Sparse) (offset : Nat) (bytes : ByteArray) : Sparse :=
  { s.writeFrom offset bytes 0 with size := max s.size (offset + bytes.size) }

theorem get_updatePage (s : Sparse) (number : Nat) (change : ByteArray → ByteArray) (i : Nat) :
    (s.updatePage number change).get i =
      if i / pageSize = number then Bytes.get (change (s.page number)) (i % pageSize)
      else s.get i := by
  simp only [get, page, updatePage, Std.TreeMap.getD_eq_getD_getElem?, Std.TreeMap.getElem?_alter]
  by_cases h : i / pageSize = number
  · simp [h]
  · rw [if_neg h, if_neg (by simpa using Ne.symm h)]

theorem get_writeFrom (s : Sparse) (offset : Nat) (bytes : ByteArray) (done i : Nat) :
    (s.writeFrom offset bytes done).get i =
      if offset + done ≤ i ∧ i < offset + bytes.size then Bytes.get bytes (i - offset)
      else s.get i := by
  fun_induction writeFrom s offset bytes done with
  | case1 s done hdone position n ih =>
    have hrest := pageRest_pos position
    have hn : n = min (bytes.size - done) (pageRest position) := rfl
    have hposition : position = offset + done := rfl
    have hpage : position % pageSize + n ≤ pageSize := by
      simp only [pageRest] at hn
      simp only [pageSize] at hn ⊢
      omega
    rw [ih, get_updatePage, get_patch, get_extract, ByteArray.size_extract]
    have hmin : min (done + n) bytes.size - done = n := by omega
    rw [hmin]
    by_cases hlater : offset + (done + n) ≤ i ∧ i < offset + bytes.size
    · rw [if_pos hlater, if_pos (by omega)]
    · rw [if_neg hlater]
      by_cases hhere : position ≤ i ∧ i < position + n
      · have hdiv : i / pageSize = position / pageSize := by
          simp only [pageSize] at hpage ⊢
          omega
        have hmod : i % pageSize = position % pageSize + (i - position) := by
          simp only [pageSize] at hpage ⊢
          omega
        rw [if_pos hdiv, if_pos (by omega), if_pos (by omega), if_pos (by omega)]
        congr 1
        omega
      · rw [if_neg (by omega : ¬(offset + done ≤ i ∧ i < offset + bytes.size))]
        by_cases hdiv : i / pageSize = position / pageSize
        · rw [if_pos hdiv, if_neg (by simp only [pageSize] at hdiv hpage ⊢; omega), get, hdiv]
        · rw [if_neg hdiv]
  | case2 s done hdone =>
    rw [if_neg (by omega)]

theorem get_write (s : Sparse) (offset : Nat) (bytes : ByteArray) (i : Nat) :
    (s.write offset bytes).get i =
      if offset ≤ i ∧ i < offset + bytes.size then Bytes.get bytes (i - offset)
      else s.get i :=
  get_writeFrom s offset bytes 0 i

/-- The byte string of `length` bytes that begins with `content` and is zero behind it. -/
def ofContent (length : Nat) (content : ByteArray) : Sparse :=
  (zeros length).write 0 (content.extract 0 length)

/-- A byte string without holes. -/
def ofBytes (bytes : ByteArray) : Sparse :=
  ofContent bytes.size bytes

/-- All of it, holes included. -/
def toBytes (s : Sparse) : ByteArray :=
  s.read 0 s.size

/-- The pages that are kept, each with its first position, in their order. -/
def written (s : Sparse) : List (Nat × ByteArray) :=
  s.pages.toList.map fun (number, bytes) => (number * pageSize, bytes)

end Sparse

end ChainFs.Bytes
