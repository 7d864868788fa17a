import ChainFs.Layout.Basic
import ChainFs.Volume
import Mathlib.Data.Finset.Card
import Mathlib.Data.Finset.Image
import Mathlib.Tactic.Ring

/-!
# The regions of a volume

A superblock holds two numbers, the size of a block and how many there are, and everything else
about the regions is arithmetic. The layout is worked out by nested divisions that round down; here
they become one quotient, and after that only inequalities between the bounds of the regions are
used. Later files speak of regions by these inequalities and by the set of covered blocks.

* `Layout.Arranged` — what holds of every layout that a superblock describes: the regions follow
  each other, and each bit of the bitmap has its block inside the volume;
* `Layout.ofCounts`, `Layout.ofSuperblock_eq` — which layout this is, and which superblocks have
  none;
* `Layout.Regular` — such a layout with one of the block sizes that volumes are formatted with;
* `Layout.dataBlock` — the block that a bit of the bitmap speaks of;
* `Layout.covered` — the addresses of all these blocks. Two of them do not overlap, and none of
  them overlaps the superblock or the bitmap.
-/

namespace ChainFs.Layout

variable {layout : Layout}

/-- The address of the data block with a bit of the bitmap. -/
def dataBlock (layout : Layout) (i : Nat) : Nat :=
  layout.dataAddress + i * layout.blockSize

/-- The data blocks that the bitmap has a bit for. -/
def covered (layout : Layout) : Finset Nat :=
  (Finset.range layout.bitmapBits).image layout.dataBlock

/-- Whether an address lies in the block that starts at `block`. -/
def InBlock (layout : Layout) (block x : Nat) : Prop :=
  block ≤ x ∧ x < block + layout.blockSize

/-- The regions of a volume follow each other, and the bitmap speaks of blocks of the volume. The
size of its blocks is one of those that are `IsSize`. -/
structure Arranged (IsSize : Nat → Prop) (layout : Layout) : Prop where
  blockSize_pos : 0 < layout.blockSize
  isSize : IsSize layout.blockSize
  superblock_eq : layout.superblockAddress = 4096 * layout.blockSize
  bitmap_eq : layout.bitmapAddress = 4098 * layout.blockSize
  data_eq : layout.dataAddress = layout.bitmapAddress + layout.bitmapBlocks * layout.blockSize
  bitmapBlocks_pos : 0 < layout.bitmapBlocks
  covered_fit : 4098 + layout.bitmapBlocks + layout.bitmapBits ≤ layout.blockCount
  blockCount_lt : layout.blockCount < 2 ^ 32

/-- Sizes of blocks two of which have room for the counter of the superblock. The bitmap, which
comes behind them, is then no part of the counter. -/
class Roomy (IsSize : Nat → Prop) : Prop where
  nine_le : ∀ {size : Nat}, IsSize size → 9 ≤ size

/-- Blocks of at least nine bytes have room. -/
instance : Roomy (9 ≤ ·) :=
  ⟨id⟩

/-- The sizes that blocks have on a volume that was formatted or opened. -/
def UsualSize (size : Nat) : Prop :=
  Volume.isBlockSize size

/-- The block sizes that volumes are formatted with, by the check that the tools make. -/
theorem usualSize_iff {size : Nat} : UsualSize size ↔ 512 ≤ size ∧ size.isPowerOfTwo := by
  rw [UsualSize, Volume.isBlockSize, Bool.and_eq_true, decide_eq_true_eq, decide_eq_true_eq]

theorem pos_of_usualSize {size : Nat} (h : UsualSize size) : 0 < size :=
  Nat.lt_of_lt_of_le (by decide) (usualSize_iff.mp h).1

instance : Roomy UsualSize where
  nine_le hsize := Nat.le_trans (by decide) (usualSize_iff.mp hsize).1

/-- The layout of a volume that was formatted or opened. -/
abbrev Regular : Layout → Prop :=
  Arranged UsualSize

/-- The nested divisions of the layout come to one: each block of the bitmap takes its share of the
volume, itself and a block for each of its bits. -/
theorem quotient_eq (n : Nat) {bits : Nat} (hbits : 0 < bits) :
    n * bits / (bits + 1) / bits = n / (bits + 1) := by
  rw [Nat.div_div_eq_div_mul, Nat.mul_div_mul_right _ _ hbits]

/-- There is no bitmap if its first block with those it speaks of does not go behind the superblock
and its spare. -/
theorem share_eq_zero_iff {blockSize blockCount : Nat} :
    (blockCount - 4098) / (8 * blockSize + 1) = 0 ↔
      blockCount < 4098 + (8 * blockSize + 1) := by
  rw [Nat.div_eq_zero_iff_lt (by omega)]
  omega

/-- The layout of a volume of `blockCount` blocks. -/
def ofCounts (blockSize blockCount : Nat) : Layout where
  blockSize
  blockCount
  superblockAddress := 4096 * blockSize
  bitmapAddress := 4098 * blockSize
  dataAddress := (4098 + (blockCount - 4098) / (8 * blockSize + 1)) * blockSize

/-- A superblock describes the layout of its volume, if the blocks behind the superblock and its
spare suffice for one block of the bitmap and those it speaks of. -/
theorem ofSuperblock_eq {superblock : Superblock} {configured : UInt32}
    (hsame : superblock.blockSize = configured) (hpos : 0 < configured.toNat) :
    ofSuperblock superblock configured =
      if superblock.blockCount.toNat ≤ 4098 then
        .error (.invalidImage (.noRoomPastSuperblock superblock.blockCount.toNat))
      else if superblock.blockCount.toNat < 4098 + (8 * configured.toNat + 1) then
        .error (.invalidImage (.noRoomForBitmap superblock.blockCount.toNat))
      else .ok (ofCounts configured.toNat superblock.blockCount.toNat) := by
  have hbitmap : superblockAddressFor configured.toNat + 2 * configured.toNat
      = 4098 * configured.toNat := by
    rw [superblockAddressFor, ← Nat.add_mul]
    rfl
  unfold ofSuperblock
  dsimp only
  rw [if_neg (not_not.mpr hsame), hbitmap, Nat.mul_div_cancel _ hpos, quotient_eq _ (by omega),
    ← Nat.add_mul]
  simp only [share_eq_zero_iff]
  rfl

/-- Only a superblock with enough blocks of the right size describes a layout. -/
theorem of_ofSuperblock {superblock : Superblock} {configured : UInt32}
    (h : ofSuperblock superblock configured = .ok layout) :
    superblock.blockSize = configured ∧ 0 < configured.toNat ∧
      4098 + (8 * configured.toNat + 1) ≤ superblock.blockCount.toNat ∧
      layout = ofCounts configured.toNat superblock.blockCount.toNat := by
  have hsame : superblock.blockSize = configured := by
    by_contra hne
    rw [ofSuperblock, if_pos hne] at h
    cases h
  have hpos : 0 < configured.toNat := by
    by_contra hzero
    obtain hzero : configured.toNat = 0 := by omega
    unfold ofSuperblock at h
    simp only [hsame, hzero, ne_eq, not_true_eq_false, if_false, Nat.mul_zero, Nat.div_zero,
      if_true] at h
    split at h <;> cases h
  rw [ofSuperblock_eq hsame hpos] at h
  split at h
  · cases h
  split at h
  · cases h
  · rename_i hroom
    exact ⟨hsame, hpos, Nat.le_of_not_lt hroom, (Except.ok.inj h).symm⟩

/-- How many blocks the bitmap gets. -/
theorem bitmapBlocks_ofCounts {blockSize : Nat} (hpos : 0 < blockSize) (blockCount : Nat) :
    (ofCounts blockSize blockCount).bitmapBlocks = (blockCount - 4098) / (8 * blockSize + 1) := by
  unfold bitmapBlocks ofCounts
  dsimp only
  rw [← Nat.sub_mul, Nat.add_sub_cancel_left, Nat.mul_div_cancel _ hpos]

/-- **A layout made from the counts is arranged**, if there is room for one block of the bitmap and
the data it speaks of. -/
theorem arranged_ofCounts {IsSize : Nat → Prop} {blockSize blockCount : Nat} (hpos : 0 < blockSize)
    (hsize : IsSize blockSize) (hroom : 4098 + (8 * blockSize + 1) ≤ blockCount)
    (hlt : blockCount < 2 ^ 32) : (ofCounts blockSize blockCount).Arranged IsSize where
  blockSize_pos := hpos
  isSize := hsize
  superblock_eq := rfl
  bitmap_eq := rfl
  data_eq := by
    rw [bitmapBlocks_ofCounts hpos]
    exact Nat.add_mul ..
  bitmapBlocks_pos := by
    rw [bitmapBlocks_ofCounts hpos]
    exact Nat.div_pos (by omega) (by omega)
  covered_fit := by
    -- the bitmap takes its share as often as it goes into the blocks
    have hshare := Nat.div_mul_le_self (blockCount - 4098) (8 * blockSize + 1)
    have hblock : (ofCounts blockSize blockCount).blockSize = blockSize := rfl
    have hcount : (ofCounts blockSize blockCount).blockCount = blockCount := rfl
    rw [Nat.mul_succ] at hshare
    rw [bitmapBits, bitmapBlocks_ofCounts hpos, hblock, hcount, Nat.mul_assoc]
    omega
  blockCount_lt := hlt

/-- Every layout that a superblock describes is arranged. -/
theorem arranged_of_ofSuperblock {IsSize : Nat → Prop} {superblock : Superblock}
    {configured : UInt32} (hpos : 0 < configured.toNat) (hsize : IsSize configured.toNat)
    (h : ofSuperblock superblock configured = .ok layout) : layout.Arranged IsSize := by
  obtain ⟨-, -, hroom, rfl⟩ := of_ofSuperblock h
  exact arranged_ofCounts hpos hsize hroom superblock.blockCount.toNat_lt

/-- Only blocks that have a size have a layout. -/
theorem pos_of_ofSuperblock {superblock : Superblock} {configured : UInt32}
    (h : ofSuperblock superblock configured = .ok layout) : 0 < configured.toNat :=
  (of_ofSuperblock h).2.1

/-- A superblock of a usual block size describes a regular layout. -/
theorem regular_of_ofSuperblock {superblock : Superblock} {configured : UInt32}
    (hsize : Volume.isBlockSize configured.toNat)
    (h : ofSuperblock superblock configured = .ok layout) : layout.Regular :=
  arranged_of_ofSuperblock (pos_of_usualSize hsize) hsize h

namespace Regular

theorem blockSize_ge (regular : layout.Regular) : 512 ≤ layout.blockSize :=
  (usualSize_iff.mp regular.isSize).1

theorem blockSize_isPowerOfTwo (regular : layout.Regular) : layout.blockSize.isPowerOfTwo :=
  (usualSize_iff.mp regular.isSize).2

/-- Every record fits into a new block of a directory. -/
theorem record_le (regular : layout.Regular) {length : Nat}
    (h : length ≤ Record.headerSize + Record.maxNameSize) :
    Cursor.firstRecord + length ≤ layout.blockSize :=
  Nat.le_trans (Nat.add_le_add_left h _) (Nat.le_trans (by decide) regular.blockSize_ge)

/-- The covered addresses are those of the blocks that a bit speaks of. -/
theorem mem_covered {a : Nat} :
    a ∈ layout.covered ↔ ∃ i < layout.bitmapBits, layout.dataBlock i = a := by
  simp [covered]

theorem data_le_of_mem {a : Nat} (ha : a ∈ layout.covered) : layout.dataAddress ≤ a := by
  obtain ⟨i, -, rfl⟩ := mem_covered.mp ha
  exact Nat.le_add_right ..

end Regular

namespace Arranged

variable {IsSize : Nat → Prop} (regular : layout.Arranged IsSize)
include regular

theorem nine_le [Roomy IsSize] : 9 ≤ layout.blockSize :=
  Roomy.nine_le regular.isSize

theorem spare_end : layout.superblockAddress + 2 * layout.blockSize = layout.bitmapAddress := by
  have := regular.superblock_eq
  have := regular.bitmap_eq
  omega

/-- The data region starts behind 4098 blocks and the bitmap. -/
theorem data_eq_mul :
    layout.dataAddress = (4098 + layout.bitmapBlocks) * layout.blockSize := by
  rw [regular.data_eq, regular.bitmap_eq, Nat.add_mul]

theorem bitmap_lt_data : layout.bitmapAddress < layout.dataAddress := by
  have := Nat.mul_pos regular.bitmapBlocks_pos regular.blockSize_pos
  have := regular.data_eq
  omega

theorem data_pos : 0 < layout.dataAddress :=
  Nat.zero_lt_of_lt regular.bitmap_lt_data

/-- The bitmap has as many bytes as make up its bits. -/
theorem bitmapBits_eq : layout.bitmapBits = 8 * (layout.dataAddress - layout.bitmapAddress) := by
  rw [regular.data_eq, Nat.add_sub_cancel_left, bitmapBits]
  ring

/-- The bitmap has at least one block of bits. -/
theorem bitmapBits_ge : 8 * layout.blockSize ≤ layout.bitmapBits := by
  rw [bitmapBits, Nat.mul_assoc]
  exact Nat.le_mul_of_pos_left _ regular.bitmapBlocks_pos

/-- There is at least one block that can be allocated. -/
theorem bitmapBits_pos : 0 < layout.bitmapBits := by
  have := regular.bitmapBits_ge
  have := regular.blockSize_pos
  omega

/-- Bits are fewer than 32-bit numbers. -/
theorem bitmapBits_lt : layout.bitmapBits < 2 ^ 32 := by
  have := regular.covered_fit
  have := regular.blockCount_lt
  omega

/-- A block's address is a multiple of the block size. -/
theorem dataBlock_eq_mul (i : Nat) :
    layout.dataBlock i = (4098 + layout.bitmapBlocks + i) * layout.blockSize := by
  rw [dataBlock, regular.data_eq_mul, ← Nat.add_mul]

/-- Different bits speak of different blocks. -/
theorem dataBlock_injective : Function.Injective layout.dataBlock := by
  intro i j h
  rw [regular.dataBlock_eq_mul, regular.dataBlock_eq_mul] at h
  have := Nat.eq_of_mul_eq_mul_right regular.blockSize_pos h
  omega

/-- A covered block ends inside the volume. -/
theorem dataBlock_end {i : Nat} (hi : i < layout.bitmapBits) :
    layout.dataBlock i + layout.blockSize ≤ layout.endAddress := by
  have hfit := regular.covered_fit
  rw [regular.dataBlock_eq_mul, endAddress, ← Nat.succ_mul]
  exact Nat.mul_le_mul_right _ (by omega)

theorem card_covered : layout.covered.card = layout.bitmapBits := by
  rw [covered, Finset.card_image_of_injective _ regular.dataBlock_injective, Finset.card_range]

/-- The root's first block is covered. -/
theorem data_mem_covered : layout.dataAddress ∈ layout.covered := by
  refine Finset.mem_image.mpr ⟨0, Finset.mem_range.mpr regular.bitmapBits_pos, ?_⟩
  rw [dataBlock, Nat.zero_mul, Nat.add_zero]

theorem end_of_mem {a : Nat} (ha : a ∈ layout.covered) :
    a + layout.blockSize ≤ layout.endAddress := by
  obtain ⟨i, hi, rfl⟩ := Regular.mem_covered.mp ha
  exact regular.dataBlock_end hi

/-- A covered block stands in the data region. -/
theorem inData_of_mem {a : Nat} (ha : a ∈ layout.covered) : layout.InData a := by
  have := Regular.data_le_of_mem ha
  have := regular.end_of_mem ha
  have := regular.blockSize_pos
  exact ⟨by omega, by omega⟩

/-- No covered block stands at address zero, which as a link means none. -/
theorem pos_of_mem {a : Nat} (ha : a ∈ layout.covered) : 0 < a := by
  have := Regular.data_le_of_mem ha
  have := regular.bitmap_lt_data
  omega

theorem data_le_end : layout.dataAddress + layout.blockSize ≤ layout.endAddress :=
  regular.end_of_mem regular.data_mem_covered

theorem mod_of_mem {a : Nat} (ha : a ∈ layout.covered) : a % layout.blockSize = 0 := by
  obtain ⟨i, -, rfl⟩ := Regular.mem_covered.mp ha
  rw [regular.dataBlock_eq_mul, Nat.mul_mod_left]

theorem div_mul_of_mem {a : Nat} (ha : a ∈ layout.covered) :
    a / layout.blockSize * layout.blockSize = a :=
  Nat.div_mul_cancel (Nat.dvd_of_mod_eq_zero (regular.mod_of_mem ha))

/-- The number of a covered block fits into a link. -/
theorem div_lt_of_mem {a : Nat} (ha : a ∈ layout.covered) : a / layout.blockSize < UInt32.size := by
  have hend := regular.end_of_mem ha
  have hlt : a < layout.blockCount * layout.blockSize := by
    have := regular.blockSize_pos
    rw [endAddress] at hend
    omega
  exact Nat.lt_trans (Nat.div_lt_of_lt_mul (Nat.mul_comm .. ▸ hlt)) regular.blockCount_lt

/-- Two covered blocks are the same or do not overlap. -/
theorem apart_of_mem {a b : Nat} (ha : a ∈ layout.covered) (hb : b ∈ layout.covered)
    (hne : a ≠ b) : a + layout.blockSize ≤ b ∨ b + layout.blockSize ≤ a := by
  obtain ⟨i, -, rfl⟩ := Regular.mem_covered.mp ha
  obtain ⟨j, -, rfl⟩ := Regular.mem_covered.mp hb
  simp only [regular.dataBlock_eq_mul, ← Nat.succ_mul]
  rcases Nat.lt_trichotomy i j with hlt | rfl | hlt
  · exact .inl (Nat.mul_le_mul_right _ (by omega))
  · exact absurd rfl hne
  · exact .inr (Nat.mul_le_mul_right _ (by omega))

/-- Two covered blocks that share a byte are one block. -/
theorem eq_of_inBlock {a b x : Nat} (ha : a ∈ layout.covered) (hb : b ∈ layout.covered)
    (hxa : layout.InBlock a x) (hxb : layout.InBlock b x) : a = b := by
  by_contra hne
  have := regular.apart_of_mem ha hb hne
  obtain ⟨_, _⟩ := hxa
  obtain ⟨_, _⟩ := hxb
  omega

/-- A covered block has a number. -/
theorem blockNumber_of_mem {a : Nat} (ha : a ∈ layout.covered) :
    layout.blockNumber a = .ok (a / layout.blockSize) := by
  have hmod := regular.mod_of_mem ha
  have hlt := regular.div_lt_of_mem ha
  rw [blockNumber, if_neg (not_or.mpr ⟨not_not.mpr hmod, Nat.not_le.mpr hlt⟩)]

end Arranged

end ChainFs.Layout
