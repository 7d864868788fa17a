import ChainFs.Bytes
import Mathlib.Tactic.Ring
import Mathlib.Logic.Function.Basic

/-!
# Contents

What the bytes of a store are, seen as a function of the address. A store answers reads from its
content and changes it by writes, so statements about what a volume holds are statements about
contents.

A content is a total function, and so it needs no bounds. They come up once, where a store says for
which accesses its content answers. Every operation has a lemma that gives its value at an address,
inside and outside of the bytes it is about, and what is said of blocks, records and superblocks
later on is put together from these.

* `Content.window` — a stretch of a content as a byte string;
* `Content.number` — the number in some bytes of a content;
* `Content.put` — a content with a byte string laid over it.
-/

namespace ChainFs

/-- The bytes of a store by their addresses. -/
abbrev Content : Type := Nat → UInt8

/-- Two byte strings are equal if they are equally long and have the same bytes. -/
theorem Bytes.ext_get {a b : ByteArray} (hsize : a.size = b.size)
    (hget : ∀ i < a.size, Bytes.get a i = Bytes.get b i) : a = b := by
  apply ByteArray.ext
  apply Array.ext
  · exact hsize
  · intro i ha hb
    have h := hget i ha
    rw [Bytes.get_eq_getD, Bytes.get_eq_getD, Array.getElem?_eq_getElem ha,
      Array.getElem?_eq_getElem hb] at h
    exact h

/-- Equally long byte strings with the same bytes from `start` to `stop` have the same part
there. -/
theorem Bytes.extract_congr {a b : ByteArray} {start stop : Nat} (hsize : a.size = b.size)
    (hget : ∀ i, start ≤ i → i < stop → Bytes.get a i = Bytes.get b i) :
    a.extract start stop = b.extract start stop := by
  refine Bytes.ext_get ?_ fun i _ => ?_
  · rw [ByteArray.size_extract, ByteArray.size_extract, hsize]
  · rw [Bytes.get_extract, Bytes.get_extract]
    split
    · rename_i hlt
      exact hget _ (Nat.le_add_right ..) hlt
    · rfl

/-- Past the end there are zeros. -/
theorem Bytes.get_of_size_le {bytes : ByteArray} {i : Nat} (h : bytes.size ≤ i) :
    Bytes.get bytes i = 0 := by
  unfold Bytes.get
  rw [dif_neg (by omega)]

theorem Bytes.get_zeros (n i : Nat) : Bytes.get (Bytes.zeros n) i = 0 := by
  rw [Bytes.zeros, Bytes.get_padded]
  exact Bytes.get_of_size_le (Nat.zero_le i)

/-- A byte string that fits keeps the length of what it is laid over. -/
theorem Bytes.size_overlay {base bytes : ByteArray} {offset : Nat}
    (h : offset + bytes.size ≤ base.size) : (Bytes.overlay base offset bytes).size = base.size := by
  have hbase : base.data.size = base.size := rfl
  have hbytes : bytes.data.size = bytes.size := rfl
  change (Bytes.overlay base offset bytes).data.size = base.size
  simp only [Bytes.overlay, ByteArray.copySlice, Array.size_append, Array.size_extract]
  omega

theorem Bytes.size_overlay_zeros {size offset : Nat} {bytes : ByteArray}
    (h : offset + bytes.size ≤ size) :
    (Bytes.overlay (Bytes.zeros size) offset bytes).size = size := by
  rw [Bytes.size_overlay (by rwa [Bytes.size_zeros]), Bytes.size_zeros]

/-- A number depends on its own bytes only. -/
theorem Bytes.number_congr {a b : ByteArray} {i j width : Nat}
    (h : ∀ k < width, Bytes.get a (i + k) = Bytes.get b (j + k)) :
    Bytes.number a i width = Bytes.number b j width := by
  induction width with
  | zero => rfl
  | succ width ih =>
    rw [Bytes.number, Bytes.number, ih fun k hk => h k (by omega), h width (by omega)]

/-- A number of `width` bytes is below `256 ^ width`. -/
theorem Bytes.number_lt (bytes : ByteArray) (start width : Nat) :
    Bytes.number bytes start width < 256 ^ width := by
  induction width with
  | zero => exact Nat.one_pos
  | succ width ih =>
    have hbyte := (Bytes.get bytes (start + width)).toNat_lt
    rw [Bytes.number, Nat.pow_succ]
    omega

/-- The last byte is the lowest one, so a number is written from its end. -/
theorem Bytes.ofNumber_succ (width n : Nat) :
    Bytes.ofNumber (width + 1) n
      = Bytes.ofNumber width (n / 256) ++ [UInt8.ofNat n].toByteArray := by
  rw [Bytes.ofNumber, Bytes.bigEndian, List.toByteArray_append]
  rfl

/-- Reading a number back gives its low bytes. -/
theorem Bytes.number_ofNumber (width n : Nat) :
    Bytes.number (Bytes.ofNumber width n) 0 width = n % 256 ^ width := by
  induction width generalizing n with
  | zero => rw [Bytes.number, Nat.pow_zero, Nat.mod_one]
  | succ width ih =>
    have hfront : Bytes.number (Bytes.ofNumber (width + 1) n) 0 width
        = Bytes.number (Bytes.ofNumber width (n / 256)) 0 width := by
      apply Bytes.number_congr
      intro k hk
      rw [Bytes.ofNumber_succ, Bytes.get_append, if_pos (by rw [Bytes.size_ofNumber]; omega)]
    have hlast : (Bytes.get (Bytes.ofNumber (width + 1) n) (0 + width)).toNat = n % 256 := by
      rw [Bytes.ofNumber_succ, Bytes.get_append, if_neg (by rw [Bytes.size_ofNumber]; omega),
        Bytes.size_ofNumber, Nat.zero_add, Nat.sub_self]
      exact UInt8.toNat_ofNat'
    rw [Bytes.number, hfront, hlast, ih, Nat.pow_succ', Nat.mod_mul]
    ring

/-- A number in the front part of a joined byte string is read from this part. -/
theorem Bytes.number_append_left {a b : ByteArray} {start width : Nat}
    (h : start + width ≤ a.size) :
    Bytes.number (a ++ b) start width = Bytes.number a start width :=
  Bytes.number_congr fun k hk => by rw [Bytes.get_append, if_pos (by omega)]

/-- A number that begins where the front part ends is read from the rest. -/
theorem Bytes.number_append_right {a b : ByteArray} {start width : Nat} (h : start = a.size) :
    Bytes.number (a ++ b) start width = Bytes.number b 0 width :=
  Bytes.number_congr fun k hk => by
    rw [Bytes.get_append, if_neg (by omega)]
    congr 1
    omega

theorem Bytes.get_append_left {a b : ByteArray} {i : Nat} (h : i < a.size) :
    Bytes.get (a ++ b) i = Bytes.get a i := by
  rw [Bytes.get_append, if_pos h]

theorem Bytes.get_append_right {a b : ByteArray} {i : Nat} (h : a.size ≤ i) :
    Bytes.get (a ++ b) i = Bytes.get b (i - a.size) := by
  rw [Bytes.get_append, if_neg (by omega)]

@[simp] theorem Bytes.size_singleton (byte : UInt8) : [byte].toByteArray.size = 1 :=
  rfl

/-- Two stretches, the second behind the first, are one. -/
theorem Bytes.extract_append_extract {bytes : ByteArray} {start middle stop : Nat}
    (h : start ≤ middle) (h' : middle ≤ stop) :
    bytes.extract start middle ++ bytes.extract middle stop = bytes.extract start stop := by
  rw [ByteArray.extract_append_extract, Nat.min_eq_left h, Nat.max_eq_right h']

/-- A byte as a stretch of its own. -/
theorem Bytes.singleton_get {bytes : ByteArray} {start : Nat} (h : start < bytes.size) :
    [Bytes.get bytes start].toByteArray = bytes.extract start (start + 1) := by
  refine Bytes.ext_get ?_ fun i hi => ?_
  · rw [Bytes.size_singleton, ByteArray.size_extract]
    omega
  · obtain rfl : i = 0 := by
      rw [Bytes.size_singleton] at hi
      omega
    rw [Bytes.get_extract, if_pos (by omega)]
    rfl

/-- A number read from some bytes is stored as these bytes. -/
theorem Bytes.ofNumber_number {bytes : ByteArray} {start : Nat} (width : Nat)
    (h : start + width ≤ bytes.size) :
    Bytes.ofNumber width (Bytes.number bytes start width)
      = bytes.extract start (start + width) := by
  induction width with
  | zero => exact (ByteArray.extract_eq_empty_iff.mpr (by omega)).symm
  | succ width ih =>
    have hbyte := (Bytes.get bytes (start + width)).toNat_lt
    have hfront : (Bytes.number bytes start width * 256 + (Bytes.get bytes (start + width)).toNat)
        / 256 = Bytes.number bytes start width := by omega
    have hlast : UInt8.ofNat
        (Bytes.number bytes start width * 256 + (Bytes.get bytes (start + width)).toNat)
          = Bytes.get bytes (start + width) := by
      apply UInt8.toNat_inj.mp
      rw [UInt8.toNat_ofNat']
      omega
    rw [Bytes.ofNumber_succ, Bytes.number, hfront, hlast, ih (by omega),
      Bytes.singleton_get (by omega), Bytes.extract_append_extract (by omega) (by omega),
      Nat.add_assoc]

namespace Content

/-! ## Stretches -/

/-- The `length` bytes from `offset` on. -/
def window (m : Content) (offset length : Nat) : ByteArray :=
  ⟨Array.ofFn fun i : Fin length => m (offset + i)⟩

@[simp] theorem size_window (m : Content) (offset length : Nat) :
    (m.window offset length).size = length := by
  simp [window, ByteArray.size]

/-- A byte of a window is a byte of the content. -/
theorem get_window (m : Content) {offset length i : Nat} (h : i < length) :
    Bytes.get (m.window offset length) i = m (offset + i) := by
  unfold Bytes.get
  rw [dif_pos (by rw [size_window]; exact h)]
  simp [window, ByteArray.getElem_eq_getElem_data]

/-- A byte string with the bytes of a stretch is that stretch. -/
theorem eq_window {m : Content} {offset : Nat} {bytes : ByteArray}
    (h : ∀ i < bytes.size, Bytes.get bytes i = m (offset + i)) :
    bytes = m.window offset bytes.size := by
  refine Bytes.ext_get (size_window ..).symm fun i hi => ?_
  rw [h i hi, get_window m hi]

/-- Windows over the same bytes are the same, wherever they stand. -/
theorem window_congr {m m' : Content} {offset offset' length : Nat}
    (h : ∀ i < length, m (offset + i) = m' (offset' + i)) :
    m.window offset length = m'.window offset' length := by
  refine Bytes.ext_get (by simp) fun i hi => ?_
  rw [size_window] at hi
  rw [get_window m hi, get_window m' hi, h i hi]

/-- Two windows that meet are one. -/
theorem window_append (m : Content) (offset a b : Nat) :
    m.window offset a ++ m.window (offset + a) b = m.window offset (a + b) := by
  refine Bytes.ext_get (by simp) fun i hi => ?_
  simp only [ByteArray.size_append, size_window] at hi
  rw [Bytes.get_append, size_window, get_window m hi]
  split
  · rename_i hlt
    rw [get_window m hlt]
  · rename_i hge
    rw [get_window m (by omega)]
    congr 1
    omega

/-- A part of a stretch. -/
theorem extract_window (m : Content) (offset length start stop : Nat) :
    (m.window offset length).extract start stop
      = m.window (offset + start) (min stop length - start) := by
  refine Bytes.ext_get (by simp) fun i hi => ?_
  rw [ByteArray.size_extract, size_window] at hi
  rw [Bytes.get_extract, if_pos (by omega), get_window m (by omega), get_window m hi, Nat.add_assoc]

@[simp] theorem window_zero (m : Content) (offset : Nat) :
    m.window offset 0 = ByteArray.empty :=
  Bytes.ext_get (by simp) fun i hi => absurd hi (by simp)

/-! ## Numbers -/

/-- The number in the `width` bytes from `offset` on, most significant byte first. -/
def number (m : Content) (offset : Nat) : Nat → Nat
  | 0 => 0
  | width + 1 => number m offset width * 256 + (m (offset + width)).toNat

/-- A number depends on the bytes it stands in. -/
theorem number_congr {m m' : Content} {offset offset' width : Nat}
    (h : ∀ i < width, m (offset + i) = m' (offset' + i)) :
    m.number offset width = m'.number offset' width := by
  induction width with
  | zero => rfl
  | succ width ih =>
    rw [number, number, ih fun i hi => h i (by omega), h width (by omega)]

/-- A number inside a window is read from the content. -/
theorem number_window (m : Content) {offset length start width : Nat}
    (h : start + width ≤ length) :
    Bytes.number (m.window offset length) start width = m.number (offset + start) width := by
  induction width with
  | zero => rfl
  | succ width ih =>
    rw [Bytes.number, number, ih (by omega), get_window m (by omega), Nat.add_assoc]

theorem number_window_zero (m : Content) (offset width : Nat) :
    Bytes.number (m.window offset width) 0 width = m.number offset width :=
  number_window m (Nat.le_of_eq (Nat.zero_add width))

theorem number_lt (m : Content) (offset width : Nat) : m.number offset width < 256 ^ width := by
  rw [← number_window_zero]
  exact Bytes.number_lt ..

/-- Zero bytes hold the number zero. -/
theorem number_zero {m : Content} {offset width : Nat} (h : ∀ i < width, m (offset + i) = 0) :
    m.number offset width = 0 := by
  induction width with
  | zero => rfl
  | succ width ih =>
    rw [number, ih fun i hi => h i (by omega), h width (by omega)]
    rfl

/-! ## Overlays -/

/-- The content with `bytes` written over it from `offset` on. -/
def put (m : Content) (offset : Nat) (bytes : ByteArray) : Content := fun x =>
  if offset ≤ x ∧ x < offset + bytes.size then Bytes.get bytes (x - offset) else m x

theorem put_inside (m : Content) {offset x : Nat} {bytes : ByteArray} (h : offset ≤ x)
    (h' : x < offset + bytes.size) : m.put offset bytes x = Bytes.get bytes (x - offset) :=
  if_pos ⟨h, h'⟩

/-- All other bytes stay. -/
theorem put_outside (m : Content) {offset x : Nat} {bytes : ByteArray}
    (h : x < offset ∨ offset + bytes.size ≤ x) : m.put offset bytes x = m x :=
  if_neg (by omega)

theorem put_add (m : Content) {offset i : Nat} {bytes : ByteArray} (h : i < bytes.size) :
    m.put offset bytes (offset + i) = Bytes.get bytes i := by
  rw [put_inside m (by omega) (by omega), Nat.add_sub_cancel_left]

/-- What was put there is found there. -/
theorem window_put (m : Content) (offset : Nat) (bytes : ByteArray) :
    (m.put offset bytes).window offset bytes.size = bytes :=
  (eq_window fun _ hi => (put_add m hi).symm).symm

/-- A number that fits its width is read back. -/
theorem number_put (m : Content) (offset : Nat) {width n : Nat} (h : n < 256 ^ width) :
    (m.put offset (Bytes.ofNumber width n)).number offset width = n := by
  have hwindow := window_put m offset (Bytes.ofNumber width n)
  rw [Bytes.size_ofNumber] at hwindow
  have hnumber := number_window_zero (m.put offset (Bytes.ofNumber width n)) offset width
  rw [hwindow, Bytes.number_ofNumber, Nat.mod_eq_of_lt h] at hnumber
  exact hnumber.symm

/-- Numbers beside the bytes that were put there stay. -/
theorem number_put_outside (m : Content) {offset start width : Nat} {bytes : ByteArray}
    (h : start + width ≤ offset ∨ offset + bytes.size ≤ start) :
    (m.put offset bytes).number start width = m.number start width :=
  number_congr fun _ _ => put_outside m (by omega)

/-- A zero byte string that is written over holds zeros but for the bytes laid over them. -/
theorem get_overlay_zeros {size offset : Nat} (bytes : ByteArray) (h : offset ≤ size) :
    Bytes.get (Bytes.overlay (Bytes.zeros size) offset bytes) = put (fun _ => 0) offset bytes := by
  funext i
  rw [Bytes.get_overlay bytes (by rwa [Bytes.size_zeros]), Bytes.get_zeros]
  rfl

end Content

end ChainFs
