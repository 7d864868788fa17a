/-!
# Byte strings

What the volume format needs beyond the operations `ByteArray` brings along:

A volume is read by positions that come out of its own bytes, and such a position may be anywhere.
So a byte is asked for by a function that answers at every position, and whether a position is
inside is a question of its own, put where it matters. The lemmas below say of each operation how
long its result is and which bytes it has.

* `Bytes.get` — a byte by position, zero past the end;
* `Bytes.zeros`, `Bytes.padded` — zero bytes, alone and behind a content;
* `Bytes.overlay` — one byte string laid over another;
* `Bytes.ofNumber`, `Bytes.number` — numbers of a fixed width, most significant byte first.
-/

namespace ChainFs.Bytes

/-- The byte at a position, and zero past the end. -/
def get (bytes : ByteArray) (i : Nat) : UInt8 :=
  if h : i < bytes.size then bytes[i] else 0

/-- A content followed by `n` zero bytes. -/
def padded : Nat → ByteArray → ByteArray
  | 0, bytes => bytes
  | n + 1, bytes => padded n (bytes.push 0)

/-- A run of `n` zero bytes. -/
def zeros (n : Nat) : ByteArray :=
  padded n ByteArray.empty

/-- The `base` with `bytes` written over it from `offset` on. Behind the end of the base it grows;
callers see to it that `offset` is not past the end. -/
def overlay (base : ByteArray) (offset : Nat) (bytes : ByteArray) : ByteArray :=
  bytes.copySlice 0 base offset bytes.size

/-! ### Numbers -/

/-- The low `width` bytes of a number, most significant first. -/
def bigEndian : Nat → Nat → List UInt8
  | 0, _ => []
  | width + 1, n => bigEndian width (n / 256) ++ [UInt8.ofNat n]

/-- A number stored in `width` bytes. -/
def ofNumber (width n : Nat) : ByteArray :=
  (bigEndian width n).toByteArray

/-- The number stored in the `width` bytes from `start` on. -/
def number (bytes : ByteArray) (start : Nat) : Nat → Nat
  | 0 => 0
  | width + 1 => number bytes start width * 256 + (get bytes (start + width)).toNat

/-! ### Sizes -/

@[simp] theorem data_padded (n : Nat) (bytes : ByteArray) :
    (padded n bytes).data = bytes.data ++ Array.replicate n 0 := by
  induction n generalizing bytes with
  | zero => simp [padded]
  | succ n ih => rw [padded, ih, Array.replicate_succ']; simp

@[simp] theorem size_padded (n : Nat) (bytes : ByteArray) :
    (padded n bytes).size = bytes.size + n := by
  induction n generalizing bytes with
  | zero => rfl
  | succ n ih => simp [padded, ih]; omega

/-- As many zero bytes as asked for. -/
@[simp] theorem size_zeros (n : Nat) : (zeros n).size = n := by
  simp [zeros]

/-- A number takes as many bytes as its width says. -/
@[simp] theorem length_bigEndian (width n : Nat) : (bigEndian width n).length = width := by
  induction width generalizing n with
  | zero => rfl
  | succ width ih => simp [bigEndian, ih]

@[simp] theorem size_ofNumber (width n : Nat) : (ofNumber width n).size = width := by
  simp [ofNumber]

/-! ### Bytes by position -/

/-- Bytes past the end read as zero. -/
theorem get_eq_getD (bytes : ByteArray) (i : Nat) : get bytes i = bytes.data[i]?.getD 0 := by
  unfold get
  split
  · rename_i h
    rw [Array.getElem?_eq_getElem h]; rfl
  · rename_i h
    rw [Array.getElem?_eq_none (by simpa using h)]; rfl

/-- Zeros behind a content change no byte of it. -/
theorem get_padded (n : Nat) (bytes : ByteArray) (i : Nat) :
    get (padded n bytes) i = get bytes i := by
  simp only [get_eq_getD, data_padded, Array.getElem?_append]
  split
  · rfl
  · rename_i h
    rw [Array.getElem?_replicate, Array.getElem?_eq_none (Nat.le_of_not_lt h)]
    split <;> rfl

/-- Bytes of two joined byte strings. -/
theorem get_append (a b : ByteArray) (i : Nat) :
    get (a ++ b) i = if i < a.size then get a i else get b (i - a.size) := by
  simp only [get_eq_getD, ByteArray.data_append, Array.getElem?_append, ByteArray.size_data]
  split <;> rfl

/-- Bytes of a part. -/
theorem get_extract (bytes : ByteArray) (start stop i : Nat) :
    get (bytes.extract start stop) i = if start + i < stop then get bytes (start + i) else 0 := by
  simp only [get_eq_getD, ByteArray.data_extract, Array.getElem?_extract]
  by_cases hstop : start + i < stop
  · rw [if_pos hstop]
    split
    · rfl
    · rw [Array.getElem?_eq_none (by omega)]
  · rw [if_neg hstop, if_neg (by omega)]
    rfl

/-- Inside, the byte string that was laid over; outside, what was there. -/
theorem get_overlay {base : ByteArray} {offset : Nat} (bytes : ByteArray) (h : offset ≤ base.size)
    (i : Nat) :
    get (overlay base offset bytes) i =
      if offset ≤ i ∧ i < offset + bytes.size then get bytes (i - offset) else get base i := by
  simp only [get_eq_getD, overlay, ByteArray.copySlice, Array.getElem?_append, Array.size_append,
    Array.size_extract, Array.getElem?_extract, ByteArray.size_data]
  have : base.data.size = base.size := rfl
  have : bytes.data.size = bytes.size := rfl
  grind

end ChainFs.Bytes
