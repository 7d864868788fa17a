import ChainFs.Allocation.Bitmap
import ChainFs.Proofs.Ends
import ChainFs.Proofs.Regions
import Mathlib.Algebra.BigOperators.Intervals
import Mathlib.Data.Nat.Bitwise
import Mathlib.Tactic.IntervalCases

/-!
# The bitmap as a set of blocks

The bitmap is bytes on a store, rewritten one block at a time. What a volume needs of it is a set of
blocks that can be asked, enlarged and made smaller. Here the bytes are opened once: a bit is found
by three divisions, and two bits share a byte or a block only if the divisions say so. From then on
nothing speaks of bits, only of the set `Bitmap.marked layout m` that the content `m` of a store
stands for.

Most of what follows asks only that the layout is arranged, not that its blocks have one of the
usual sizes.

* `Bitmap.marked` — the blocks whose bit is set, `Bitmap.population` — how many bits are set;
* `Bitmap.locate_eq`, `Bitmap.locate_error` — exactly the covered blocks have a bit;
* `Bitmap.assign_ends` — setting and clearing a bit adds a block to the set and takes it away;
* `Bitmap.nextFree_spec` — the block found is the least one that is not in the set.
-/

namespace ChainFs.Bitmap

open Store

variable {layout : Layout} {IsSize : Nat → Prop} {m m' : Content}

/-! ## Bits of a byte -/

theorem hasBit_withBit {byte : UInt8} {k l : Nat} {value : Bool} (hk : k < 8) (hl : l < 8) :
    hasBit (withBit byte k value) l = if l = k then value else hasBit byte l := by
  have hmask : ((1 : UInt8) <<< UInt8.ofNat k).toNat = 2 ^ k := by
    interval_cases k <;> rfl
  have hclear : (~~~((1 : UInt8) <<< UInt8.ofNat k)).toNat = 2 ^ 8 - (2 ^ k + 1) := by
    interval_cases k <;> rfl
  have hpow : 2 ^ k < 2 ^ 8 := Nat.pow_lt_pow_right (by decide) hk
  cases value with
  | true =>
    simp only [hasBit, withBit, if_true, UInt8.toNat_or, hmask, Nat.testBit_or, Nat.testBit_two_pow]
    by_cases h : l = k
    · simp [h]
    · simp [h, Ne.symm h]
  | false =>
    simp only [hasBit, withBit, Bool.false_eq_true, if_false, UInt8.toNat_and, hclear,
      Nat.testBit_and, Nat.testBit_two_pow_sub_succ hpow, Nat.testBit_two_pow]
    by_cases h : l = k
    · simp [h]
    · simp [h, Ne.symm h, hl]

/-- A byte whose bits are all set is the largest one. -/
theorem eq_max_of_hasBit {byte : UInt8} (h : ∀ k < 8, hasBit byte k = true) : byte = 0xff := by
  apply UInt8.toNat_inj.mp
  apply Nat.eq_of_testBit_eq
  intro k
  by_cases hk : k < 8
  · rw [← hasBit, h k hk]
    interval_cases k <;> rfl
  · have hlarge : 2 ^ 8 ≤ 2 ^ k := Nat.pow_le_pow_right (by decide) (by omega)
    rw [Nat.testBit_lt_two_pow (Nat.lt_of_lt_of_le byte.toNat_lt hlarge),
      Nat.testBit_lt_two_pow (Nat.lt_of_lt_of_le (UInt8.toNat_lt 0xff) hlarge)]

theorem hasBit_max {k : Nat} (hk : k < 8) : hasBit 0xff k = true := by
  interval_cases k <;> rfl

/-- In a byte with a clear bit the lowest one is found. -/
theorem lowestClear_spec {byte : UInt8} (h : byte ≠ 0xff) :
    lowestClear byte < 8 ∧ hasBit byte (lowestClear byte) = false ∧
      ∀ k < lowestClear byte, hasBit byte k = true := by
  have hlt : lowestClear byte < 8 := by
    by_contra hge
    apply h
    apply eq_max_of_hasBit
    intro k hk
    have hbefore : k < (List.range 8).findIdx fun k => !hasBit byte k := by
      rw [← lowestClear]
      omega
    simpa using List.not_of_lt_findIdx hbefore
  refine ⟨hlt, ?_, fun k hk => ?_⟩
  · have hinside : ((List.range 8).findIdx fun k => !hasBit byte k) < (List.range 8).length := by
      rw [← lowestClear, List.length_range]
      exact hlt
    simpa [lowestClear] using List.findIdx_getElem (w := hinside)
  · have hbefore : k < (List.range 8).findIdx fun k => !hasBit byte k := hk
    simpa using List.not_of_lt_findIdx hbefore

/-! ## The set of marked blocks -/

/-- Bit `i` of the bitmap. -/
def bit (layout : Layout) (m : Content) (i : Nat) : Bool :=
  hasBit (m (layout.bitmapAddress + i / 8)) (i % 8)

/-- The blocks whose bit is set. -/
def marked (layout : Layout) (m : Content) : Finset Nat :=
  ((Finset.range layout.bitmapBits).filter fun i => bit layout m i).image layout.dataBlock

/-- How many bits are set in the bytes of the bitmap. -/
def population (layout : Layout) (m : Content) : Nat :=
  ∑ x ∈ Finset.Ico layout.bitmapAddress layout.dataAddress, (List.range 8).countP (hasBit (m x))

theorem mem_marked {a : Nat} :
    a ∈ marked layout m ↔
      ∃ i < layout.bitmapBits, bit layout m i = true ∧ layout.dataBlock i = a := by
  simp [marked, and_assoc]

theorem dataBlock_mem_marked (regular : layout.Arranged IsSize) {i : Nat}
    (hi : i < layout.bitmapBits) :
    layout.dataBlock i ∈ marked layout m ↔ bit layout m i = true := by
  rw [mem_marked]
  constructor
  · rintro ⟨j, -, hbit, heq⟩
    rwa [← regular.dataBlock_injective heq]
  · exact fun hbit => ⟨i, hi, hbit, rfl⟩

theorem marked_subset_covered : marked layout m ⊆ layout.covered := by
  intro a ha
  obtain ⟨i, hi, -, rfl⟩ := mem_marked.mp ha
  exact Layout.Regular.mem_covered.mpr ⟨i, hi, rfl⟩

theorem card_marked_le (regular : layout.Arranged IsSize) :
    (marked layout m).card ≤ layout.bitmapBits :=
  regular.card_covered ▸ Finset.card_le_card marked_subset_covered

/-- Only the bytes of the bitmap say what is marked. -/
theorem marked_congr (regular : layout.Arranged IsSize)
    (h : ∀ x, layout.bitmapAddress ≤ x → x < layout.dataAddress → m' x = m x) :
    marked layout m' = marked layout m := by
  have hbits := regular.bitmapBits_eq
  ext a
  rw [mem_marked, mem_marked]
  refine exists_congr fun i => and_congr_right fun hi => ?_
  rw [bit, bit, h _ (by omega) (by omega)]

theorem countP_range_mul (f : Nat → Nat → Bool) (n : Nat) :
    (List.range (8 * n)).countP (fun i => f (i / 8) (i % 8))
      = ∑ b ∈ Finset.range n, (List.range 8).countP (f b) := by
  induction n with
  | zero => rfl
  | succ n ih =>
    rw [Finset.sum_range_succ, ← ih, Nat.mul_succ, List.range_add, List.countP_append,
      List.countP_map]
    congr 1
    refine List.countP_congr fun k hk => ?_
    have hk : k < 8 := List.mem_range.mp hk
    have hdiv : (8 * n + k) / 8 = n := by omega
    have hmod : (8 * n + k) % 8 = k := by omega
    simp only [Function.comp_apply, hdiv, hmod]

/-- Each set bit marks a block of its own. -/
theorem population_eq (regular : layout.Arranged IsSize) :
    population layout m = (marked layout m).card := by
  have hcard : (marked layout m).card
      = (List.range layout.bitmapBits).countP (bit layout m) := by
    rw [marked, Finset.card_image_of_injective _ regular.dataBlock_injective,
      List.countP_eq_length_filter]
    exact (Multiset.coe_card _).trans (congrArg List.length (List.filter_congr fun i _ => by simp))
  rw [hcard, regular.bitmapBits_eq, population, Finset.sum_Ico_eq_sum_range]
  exact (countP_range_mul (fun b k => hasBit (m (layout.bitmapAddress + b)) k) _).symm

/-! ## Finding a bit -/

/-- Where the bit of a covered block is: in a byte of a bitmap block. -/
theorem locate_eq (regular : layout.Arranged IsSize) {i : Nat} (hi : i < layout.bitmapBits) :
    ∃ position, locate layout (layout.dataBlock i) = .ok position ∧
      position.block + position.byte = layout.bitmapAddress + i / 8 ∧
      position.byte < layout.blockSize ∧ layout.bitmapAddress ≤ position.block ∧
      position.block + layout.blockSize ≤ layout.dataAddress ∧ position.bit = i % 8 := by
  have hmem := Layout.Regular.mem_covered.mpr ⟨i, hi, rfl⟩
  have hpos := regular.blockSize_pos
  have hindex : (layout.dataBlock i - layout.dataAddress) / layout.blockSize = i := by
    rw [Layout.dataBlock, Nat.add_sub_cancel_left, Nat.mul_div_cancel _ hpos]
  have hblock : i / (8 * layout.blockSize) < layout.bitmapBlocks := by
    apply Nat.div_lt_of_lt_mul
    rw [Nat.mul_comm, ← Nat.mul_assoc]
    exact hi
  have hrow : i / (8 * layout.blockSize) * layout.blockSize + layout.blockSize
      ≤ layout.bitmapBlocks * layout.blockSize := by
    rw [← Nat.succ_mul]
    exact Nat.mul_le_mul_right _ hblock
  have hmod : i % (8 * layout.blockSize) < 8 * layout.blockSize := Nat.mod_lt _ (by omega)
  -- the bit lies in a row of the bitmap, and in a byte of the row
  have hsplit : 8 * (i / (8 * layout.blockSize) * layout.blockSize)
      + i % (8 * layout.blockSize) = i := by
    have := Nat.div_add_mod i (8 * layout.blockSize)
    rw [Nat.mul_assoc, Nat.mul_comm layout.blockSize] at this
    exact this
  have hdata := regular.data_eq
  refine ⟨⟨layout.bitmapAddress + i / (8 * layout.blockSize) * layout.blockSize,
    i % (8 * layout.blockSize) / 8, i % 8⟩, ?_, ?_, ?_, ?_, ?_, rfl⟩
  · rw [locate, if_neg (by simp [regular.mod_of_mem hmem, regular.inData_of_mem hmem])]
    simp only [hindex]
    rw [if_neg (by omega)]
  · dsimp only
    omega
  · dsimp only
    omega
  · exact Nat.le_add_right ..
  · dsimp only
    omega

/-- An address without a bit is refused. -/
theorem locate_error (regular : layout.Arranged IsSize) {a : Nat} (ha : a ∉ layout.covered) :
    locate layout a = .error (.invalidAddress a) := by
  unfold locate
  split
  · rfl
  · rename_i haligned
    rw [not_or, not_not, not_not] at haligned
    obtain ⟨hmod, hdata, -⟩ := haligned
    dsimp only
    rw [if_pos]
    -- an aligned address with a place in the bitmap would be covered
    by_contra hinside
    apply ha
    have hrow : (a - layout.dataAddress) / layout.blockSize / (8 * layout.blockSize)
        * layout.blockSize < layout.bitmapBlocks * layout.blockSize := by
      have := regular.data_eq
      omega
    have hbits : (a - layout.dataAddress) / layout.blockSize < layout.bitmapBits := by
      have hlt := Nat.lt_of_mul_lt_mul_right hrow
      have hmul := (Nat.div_lt_iff_lt_mul (by have := regular.blockSize_pos; omega)).mp hlt
      rwa [← Nat.mul_assoc] at hmul
    refine Layout.Regular.mem_covered.mpr ⟨_, hbits, ?_⟩
    have hoffset : (a - layout.dataAddress) % layout.blockSize = 0 := by
      have hdvd := Nat.dvd_of_mod_eq_zero hmod
      have hbase : layout.blockSize ∣ layout.dataAddress :=
        Nat.dvd_of_mod_eq_zero (regular.mod_of_mem regular.data_mem_covered)
      exact Nat.mod_eq_zero_of_dvd (Nat.dvd_sub hdvd hbase)
    rw [Layout.dataBlock, Nat.div_mul_cancel (Nat.dvd_of_mod_eq_zero hoffset)]
    omega

/-! ## Setting and clearing bits -/

/-- The content with the bit of a covered block set or cleared. -/
def assigned (layout : Layout) (m : Content) (a : Nat) (value : Bool) : Content :=
  let i := (a - layout.dataAddress) / layout.blockSize
  let x := layout.bitmapAddress + i / 8
  Function.update m x (withBit (m x) (i % 8) value)

theorem index_dataBlock (regular : layout.Arranged IsSize) (i : Nat) :
    (layout.dataBlock i - layout.dataAddress) / layout.blockSize = i := by
  rw [Layout.dataBlock, Nat.add_sub_cancel_left, Nat.mul_div_cancel _ regular.blockSize_pos]

theorem bit_assigned (regular : layout.Arranged IsSize) (i j : Nat) (value : Bool) :
    bit layout (assigned layout m (layout.dataBlock i) value) j
      = if j = i then value else bit layout m j := by
  simp only [assigned, index_dataBlock regular]
  unfold bit
  by_cases hbyte : j / 8 = i / 8
  · rw [hbyte, Function.update_self,
      hasBit_withBit (Nat.mod_lt _ (by decide)) (Nat.mod_lt _ (by decide))]
    have hiff : j % 8 = i % 8 ↔ j = i := by omega
    simp only [hiff]
  · rw [Function.update_of_ne (by omega), if_neg (by rintro rfl; exact hbyte rfl)]

theorem marked_assigned (regular : layout.Arranged IsSize) {a : Nat} (ha : a ∈ layout.covered)
    (value : Bool) :
    marked layout (assigned layout m a value)
      = if value then insert a (marked layout m) else (marked layout m).erase a := by
  obtain ⟨i, hi, rfl⟩ := Layout.Regular.mem_covered.mp ha
  ext b
  by_cases hb : b ∈ layout.covered
  · obtain ⟨j, hj, rfl⟩ := Layout.Regular.mem_covered.mp hb
    have heq : layout.dataBlock j = layout.dataBlock i ↔ j = i :=
      regular.dataBlock_injective.eq_iff
    rw [dataBlock_mem_marked regular hj, bit_assigned regular]
    cases value <;> by_cases hij : j = i <;>
      simp [heq, hij, dataBlock_mem_marked regular hi, dataBlock_mem_marked regular hj]
  · have hnot : b ∉ marked layout m := fun h => hb (marked_subset_covered h)
    have hne : b ≠ layout.dataBlock i := by
      rintro rfl
      exact hb ha
    constructor
    · exact fun h => absurd (marked_subset_covered h) hb
    · cases value <;> simp [hnot, hne]

/-- Nothing but the bitmap changes. -/
theorem assigned_outside (regular : layout.Arranged IsSize) {a x : Nat} (ha : a ∈ layout.covered)
    (value : Bool) (hx : x < layout.bitmapAddress ∨ layout.dataAddress ≤ x) :
    assigned layout m a value x = m x := by
  obtain ⟨i, hi, rfl⟩ := Layout.Regular.mem_covered.mp ha
  have hbits := regular.bitmapBits_eq
  simp only [assigned, index_dataBlock regular]
  rw [Function.update_of_ne (by omega)]

theorem size_blockWithBit (block : ByteArray) (i k : Nat) (value : Bool) :
    (blockWithBit block i k value).size = block.size := by
  unfold blockWithBit
  split
  · exact Array.size_set ..
  · rfl

theorem get_blockWithBit (block : ByteArray) {i : Nat} (k : Nat) (value : Bool)
    (hi : i < block.size) (j : Nat) :
    Bytes.get (blockWithBit block i k value) j
      = if j = i then withBit (Bytes.get block i) k value else Bytes.get block j := by
  have hget : Bytes.get block i = block[i] := dif_pos hi
  rw [blockWithBit, dif_pos hi, hget, Bytes.get_eq_getD, Bytes.get_eq_getD]
  simp only [ByteArray.set, Array.getElem?_set]
  by_cases hji : j = i
  · subst hji
    have hj : j < block.data.size := hi
    simp
  · simp [hji, Ne.symm hji]

/-- Writing back a bitmap block with one bit changed changes that bit. -/
theorem put_blockWithBit (regular : layout.Arranged IsSize) {i : Nat} {position : Position}
    (value : Bool) (hbyte : position.block + position.byte = layout.bitmapAddress + i / 8)
    (hlt : position.byte < layout.blockSize) (hbit : position.bit = i % 8) :
    m.put position.block (blockWithBit (m.window position.block layout.blockSize)
      position.byte position.bit value) = assigned layout m (layout.dataBlock i) value := by
  funext x
  simp only [assigned, index_dataBlock regular]
  by_cases hx : position.block ≤ x ∧ x < position.block + layout.blockSize
  · rw [Content.put_inside m hx.1 (by rw [size_blockWithBit, Content.size_window]; exact hx.2),
      get_blockWithBit _ _ _ (by rw [Content.size_window]; exact hlt), Content.get_window m hlt,
      hbyte, hbit]
    by_cases hxi : x = layout.bitmapAddress + i / 8
    · rw [if_pos (by omega), hxi, Function.update_self]
    · rw [if_neg (by omega), Function.update_of_ne hxi, Content.get_window m (by omega)]
      congr 1
      omega
  · rw [Content.put_outside m (by rw [size_blockWithBit, Content.size_window]; omega),
      Function.update_of_ne (by omega)]

section Operations

variable {σ : Type} [Store σ] [Faithful σ] {size : Nat}

/-- A covered block has its bit set or cleared, and the answer says what the bit was before. -/
theorem assign_ends (regular : layout.Arranged IsSize) (hsize : layout.endAddress ≤ size) {a : Nat}
    (ha : a ∈ layout.covered) (value : Bool) :
    (assign layout a value : Edit σ Bool).Ends size m fun r m' =>
      r = .ok (decide (a ∈ marked layout m)) ∧ m' = assigned layout m a value ∨
      ∃ e, r = .error e ∧ Fault σ e ∧ m' = m := by
  obtain ⟨i, hi, rfl⟩ := Layout.Regular.mem_covered.mp ha
  obtain ⟨position, hlocate, hbyte, hlt, -, hend, hbit⟩ := locate_eq regular hi
  have hdata := regular.data_le_end
  refine .ofExcept_bind hlocate (.ask_bind (a := m.window position.block layout.blockSize) ?_ ?_)
  · rintro store rfl rfl
    exact read_eq (by omega)
  · refine .write_bind ?_ (fun e he => .inr ⟨e, rfl, he, rfl⟩) (.pure (.inl ⟨?_, ?_⟩))
    · rw [size_blockWithBit, Content.size_window]
      omega
    · congr 1
      rw [Content.get_window m hlt, hbyte, hbit, ← bit, Bool.eq_iff_iff, decide_eq_true_iff]
      exact (dataBlock_mem_marked regular hi).symm
    · exact put_blockWithBit regular value hbyte hlt hbit

/-- An address without a bit is refused, and nothing changes. -/
theorem assign_ends_of_not_mem (regular : layout.Arranged IsSize) {a : Nat}
    (ha : a ∉ layout.covered) (value : Bool) :
    (assign layout a value : Edit σ Bool).Ends size m fun r m' =>
      r = .error (.invalidAddress a) ∧ m' = m :=
  .ofExcept_bind_error (locate_error regular ha) ⟨rfl, rfl⟩

theorem isAllocated_eq (regular : layout.Arranged IsSize) {store : σ}
    (hsize : layout.endAddress ≤ Store.size store) {a : Nat} (ha : a ∈ layout.covered) :
    isAllocated layout store a = .ok (decide (a ∈ marked layout (content store))) := by
  obtain ⟨i, hi, rfl⟩ := Layout.Regular.mem_covered.mp ha
  obtain ⟨position, hlocate, hbyte, hlt, -, hend, hbit⟩ := locate_eq regular hi
  have hdata := regular.data_le_end
  have hread : Store.read store (position.block + position.byte) 1
      = .ok ((content store).window (position.block + position.byte) 1) := read_eq (by omega)
  have hget : Bytes.get ((content store).window (position.block + position.byte) 1) 0
      = content store (layout.bitmapAddress + i / 8) := by
    rw [Content.get_window _ Nat.one_pos, Nat.add_zero, hbyte]
  have hdecide : hasBit (content store (layout.bitmapAddress + i / 8)) (i % 8)
      = decide (layout.dataBlock i ∈ marked layout (content store)) := by
    rw [← bit, Bool.eq_iff_iff, decide_eq_true_iff, dataBlock_mem_marked regular hi]
  rw [isAllocated, hlocate]
  simp only [bind, Except.bind, pure, Except.pure, hread, hget, hbit, hdecide]

theorem isAllocated_iff (regular : layout.Arranged IsSize) {store : σ}
    (hsize : layout.endAddress ≤ Store.size store) {a : Nat} :
    isAllocated layout store a = .ok true ↔ a ∈ marked layout (content store) := by
  by_cases ha : a ∈ layout.covered
  · rw [isAllocated_eq regular hsize ha, Except.ok.injEq, decide_eq_true_iff]
  · refine iff_of_false ?_ fun hmarked => ha (marked_subset_covered hmarked)
    rw [isAllocated, locate_error regular ha]
    exact fun h => by cases h

end Operations

/-! ## The first free block -/

/-- In a run of bytes the first clear bit is found. -/
theorem firstClear?_spec (block : ByteArray) (i : Nat) :
    (∃ k, firstClear? block i = some k ∧ 8 * i ≤ k ∧ k < 8 * block.size ∧
      hasBit (Bytes.get block (k / 8)) (k % 8) = false ∧
      ∀ l, 8 * i ≤ l → l < k → hasBit (Bytes.get block (l / 8)) (l % 8) = true) ∨
    firstClear? block i = none ∧
      ∀ l, 8 * i ≤ l → l < 8 * block.size → hasBit (Bytes.get block (l / 8)) (l % 8) = true := by
  fun_induction firstClear? block i with
  | case1 i hi hmax ih =>
    -- all bits of this byte are set, so what is found is found behind it
    have hbyte : ∀ l, 8 * i ≤ l → l < 8 * (i + 1) →
        hasBit (Bytes.get block (l / 8)) (l % 8) = true := by
      intro l hle hlt
      have hl : l / 8 = i := by omega
      rw [hl, Bytes.get, dif_pos hi, hmax]
      exact hasBit_max (Nat.mod_lt _ (by decide))
    rcases ih with ⟨k, hk, hle, hlt, hclear, hset⟩ | ⟨hnone, hset⟩
    · refine .inl ⟨k, hk, by omega, hlt, hclear, fun l hl hlk => ?_⟩
      rcases Nat.lt_or_ge l (8 * (i + 1)) with hhere | hbehind
      · exact hbyte l hl hhere
      · exact hset l hbehind hlk
    · refine .inr ⟨hnone, fun l hl hlk => ?_⟩
      rcases Nat.lt_or_ge l (8 * (i + 1)) with hhere | hbehind
      · exact hbyte l hl hhere
      · exact hset l hbehind hlk
  | case2 i hi hmax =>
    obtain ⟨hlt, hclear, hset⟩ := lowestClear_spec hmax
    refine .inl ⟨_, rfl, by omega, by omega, ?_, fun l hl hlk => ?_⟩
    · have hdiv : (8 * i + lowestClear block[i]) / 8 = i := by omega
      have hmod : (8 * i + lowestClear block[i]) % 8 = lowestClear block[i] := by omega
      rw [hdiv, hmod, Bytes.get, dif_pos hi]
      exact hclear
    · have hdiv : l / 8 = i := by omega
      rw [hdiv, Bytes.get, dif_pos hi]
      exact hset _ (by omega)
  | case3 i hi => exact .inr ⟨rfl, fun l hl hlk => by omega⟩

/-- A bit of a bitmap block is a bit of the bitmap. -/
theorem hasBit_window (m : Content) (i : Nat) {l : Nat} (hl : l < 8 * layout.blockSize) :
    hasBit (Bytes.get (m.window (layout.bitmapAddress + i * layout.blockSize) layout.blockSize)
      (l / 8)) (l % 8) = bit layout m (i * (8 * layout.blockSize) + l) := by
  have hmul : i * (8 * layout.blockSize) = 8 * (i * layout.blockSize) := Nat.mul_left_comm ..
  have hbyte : layout.bitmapAddress + i * layout.blockSize + l / 8
      = layout.bitmapAddress + (i * (8 * layout.blockSize) + l) / 8 := by omega
  have hplace : l % 8 = (i * (8 * layout.blockSize) + l) % 8 := by omega
  rw [Content.get_window _ (by omega), bit, hbyte, hplace]

/-- The first clear bit of a bitmap block is the first one of the bitmap from that block on. -/
theorem firstClear?_window (layout : Layout) (m : Content) (i : Nat) :
    (∃ k, k < 8 * layout.blockSize ∧
      firstClear? (m.window (layout.bitmapAddress + i * layout.blockSize) layout.blockSize) 0
        = some k ∧
      bit layout m (i * (8 * layout.blockSize) + k) = false ∧
      ∀ l, i * (8 * layout.blockSize) ≤ l → l < i * (8 * layout.blockSize) + k →
        bit layout m l = true) ∨
    firstClear? (m.window (layout.bitmapAddress + i * layout.blockSize) layout.blockSize) 0
        = none ∧
      ∀ l, i * (8 * layout.blockSize) ≤ l → l < (i + 1) * (8 * layout.blockSize) →
        bit layout m l = true := by
  have hnext : (i + 1) * (8 * layout.blockSize)
      = i * (8 * layout.blockSize) + 8 * layout.blockSize := Nat.succ_mul ..
  rcases firstClear?_spec
      (m.window (layout.bitmapAddress + i * layout.blockSize) layout.blockSize) 0 with
    ⟨k, hk, -, hlt, hclear, hset⟩ | ⟨hnone, hset⟩
  · rw [Content.size_window] at hlt
    refine .inl ⟨k, hlt, hk, ?_, fun l hl hlk => ?_⟩
    · rw [← hasBit_window m i hlt]
      exact hclear
    · have hl' := hset (l - i * (8 * layout.blockSize)) (by omega) (by omega)
      rw [hasBit_window m i (by omega)] at hl'
      rwa [Nat.add_sub_cancel' hl] at hl'
  · refine .inr ⟨hnone, fun l hl hlt => ?_⟩
    rw [Content.size_window] at hset
    have hl' := hset (l - i * (8 * layout.blockSize)) (by omega) (by omega)
    rw [hasBit_window m i (by omega)] at hl'
    rwa [Nat.add_sub_cancel' hl] at hl'

section Search

variable {σ : Type} [Store σ] [Faithful σ]

/-- A search from bitmap block `i` on finds the first clear bit there is from that block on. -/
theorem nextFreeFrom_spec (regular : layout.Arranged IsSize) {store : σ}
    (hsize : layout.endAddress ≤ Store.size store) (i left : Nat)
    (hleft : i + left = layout.bitmapBlocks) :
    (∃ j, i * (8 * layout.blockSize) ≤ j ∧ j < layout.bitmapBits ∧
      bit layout (content store) j = false ∧
      (∀ l, i * (8 * layout.blockSize) ≤ l → l < j → bit layout (content store) l = true) ∧
      nextFreeFrom layout store i left = .ok (layout.dataBlock j)) ∨
    (∀ l, i * (8 * layout.blockSize) ≤ l → l < layout.bitmapBits →
      bit layout (content store) l = true) ∧
      nextFreeFrom layout store i left = .error .outOfSpace := by
  induction left generalizing i with
  | zero =>
    refine .inr ⟨fun l hl hlt => ?_, rfl⟩
    rw [Layout.bitmapBits, ← hleft, Nat.add_zero, Nat.mul_assoc] at hlt
    omega
  | succ left ih =>
    have hrows : (i + 1) * layout.blockSize ≤ layout.bitmapBlocks * layout.blockSize :=
      Nat.mul_le_mul_right _ (by omega)
    have hmul : i * (8 * layout.blockSize) = 8 * (i * layout.blockSize) := Nat.mul_left_comm ..
    have hnext : (i + 1) * (8 * layout.blockSize)
        = i * (8 * layout.blockSize) + 8 * layout.blockSize := Nat.succ_mul ..
    have hlayout := regular.bitmapBits_eq
    have hdata := regular.data_eq
    have hend := regular.data_le_end
    rw [Nat.succ_mul] at hrows
    rw [nextFreeFrom, read_eq (by omega)]
    simp only [bind, Except.bind]
    rcases firstClear?_window layout (content store) i with
      ⟨k, hlt, hk, hclear, hset⟩ | ⟨hnone, hhere⟩
    · have haddress : layout.dataAddress + (i * 8 * layout.blockSize + k) * layout.blockSize
          = layout.dataBlock (i * (8 * layout.blockSize) + k) := by
        rw [Layout.dataBlock, Nat.mul_assoc i]
      have hinside : i * (8 * layout.blockSize) + k < layout.bitmapBits := by omega
      have hroom := regular.dataBlock_end hinside
      have hpos := regular.blockSize_pos
      refine .inl ⟨i * (8 * layout.blockSize) + k, by omega, hinside, hclear, hset, ?_⟩
      rw [hk]
      simp only [haddress]
      rw [if_neg (by omega)]
    · -- all bits of this block are set, so what the search finds further on is the first one
      rw [hnone]
      rcases ih (i + 1) (by omega) with ⟨j, hle, hlt, hclear, hset, hfound⟩ | ⟨hset, hfull⟩
      · refine .inl ⟨j, by omega, hlt, hclear, fun l hl hlj => ?_, hfound⟩
        rcases Nat.lt_or_ge l ((i + 1) * (8 * layout.blockSize)) with h | h
        · exact hhere l hl h
        · exact hset l h hlj
      · refine .inr ⟨fun l hl hlt => ?_, hfull⟩
        rcases Nat.lt_or_ge l ((i + 1) * (8 * layout.blockSize)) with h | h
        · exact hhere l hl h
        · exact hset l h hlt

/-- The block found is the first covered one that is not marked; there is none exactly if all are
marked. -/
theorem nextFree_spec (regular : layout.Arranged IsSize) {store : σ}
    (hsize : layout.endAddress ≤ Store.size store) :
    (∃ a ∈ layout.covered, a ∉ marked layout (content store) ∧
      (∀ b ∈ layout.covered, b < a → b ∈ marked layout (content store)) ∧
      nextFree layout store = .ok a) ∨
    marked layout (content store) = layout.covered ∧
      nextFree layout store = .error .outOfSpace := by
  rcases nextFreeFrom_spec regular hsize 0 layout.bitmapBlocks (by omega) with
    ⟨j, -, hj, hclear, hset, hfound⟩ | ⟨hset, hfull⟩
  · refine .inl ⟨layout.dataBlock j, Layout.Regular.mem_covered.mpr ⟨j, hj, rfl⟩, ?_, ?_, hfound⟩
    · rw [dataBlock_mem_marked regular hj, hclear]
      exact Bool.false_ne_true
    · intro b hb hlt
      obtain ⟨l, hl, rfl⟩ := Layout.Regular.mem_covered.mp hb
      have hlj : l < j := by
        rw [Layout.dataBlock, Layout.dataBlock] at hlt
        exact Nat.lt_of_mul_lt_mul_right (Nat.lt_of_add_lt_add_left hlt)
      rw [dataBlock_mem_marked regular hl]
      exact hset l (by omega) hlj
  · refine .inr ⟨Finset.Subset.antisymm marked_subset_covered fun b hb => ?_, hfull⟩
    obtain ⟨l, hl, rfl⟩ := Layout.Regular.mem_covered.mp hb
    exact (dataBlock_mem_marked regular hl).mpr (hset l (by omega) hl)

end Search

/-- Unless all blocks are marked, all stores of a content have the same first free block. -/
theorem exists_nextFree (σ : Type) [Store σ] [Faithful σ] (regular : layout.Arranged IsSize)
    {size : Nat} (hsize : layout.endAddress ≤ size) (hfree : marked layout m ≠ layout.covered) :
    ∃ a ∈ layout.covered, a ∉ marked layout m ∧
      (∀ b ∈ layout.covered, b < a → b ∈ marked layout m) ∧
      ∀ store : σ, Store.size store = size → content store = m → nextFree layout store = .ok a := by
  classical
  have hexists : ∃ a, a ∈ layout.covered ∧ a ∉ marked layout m := by
    by_contra hnone
    push Not at hnone
    exact hfree (Finset.Subset.antisymm marked_subset_covered hnone)
  have hmem := Nat.find_spec hexists
  have hleast : ∀ b ∈ layout.covered, b < Nat.find hexists → b ∈ marked layout m := by
    intro b hb hlt
    by_contra hnot
    exact Nat.find_min hexists hlt ⟨hb, hnot⟩
  refine ⟨Nat.find hexists, hmem.1, hmem.2, hleast, ?_⟩
  rintro store rfl rfl
  rcases nextFree_spec regular hsize with ⟨c, hc, hcfree, hcfirst, hfound⟩ | ⟨hall, -⟩
  · rcases Nat.lt_trichotomy c (Nat.find hexists) with hlt | rfl | hlt
    · exact absurd (hleast c hc hlt) hcfree
    · exact hfound
    · exact absurd (hcfirst _ hmem.1 hlt) hmem.2
  · exact absurd hall hfree

end ChainFs.Bitmap
