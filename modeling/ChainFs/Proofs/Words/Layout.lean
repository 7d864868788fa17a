import ChainFs.Proofs.Superblock
import ChainFs.Proofs.Words.Blocks

/-!
# The layout in numbers that wrap around

A superblock is not to be trusted, and a machine works its layout out in words of 64 bits, where a
product that is too large wraps around and is taken for a small number. One product can get so
large, but only for blocks of which no volume has enough for a bitmap; and what is left of it when
it wraps around is too small for a block of the bitmap as well.

* `Layout.Arithmetic` — numbers in which a layout can be worked out: those without an end, and
  words;
* `Layout.evaluate` — the layout of a superblock in such numbers;
* `Layout.quotient_wraps` — the size of the bitmap is right even if the product wraps around;
* `Layout.evaluate_words` — so words give the same layout, and the same refusal;
* `Layout.evaluate_wraps` — for all superblocks that can be read, and which of them make the product
  wrap around.

The formula is written down once, over any numbers that have the operations it needs, and the layout
of a volume is its instance without an end. So what is compared is one formula with itself.
-/

namespace ChainFs.Layout

/-- Numbers in which a layout can be worked out. -/
class Arithmetic (α : Type) extends Add α, Sub α, Mul α, Div α where
  ofWord : UInt32 → α
  toNat : α → Nat

instance : Arithmetic Nat where
  ofWord := UInt32.toNat
  toNat := id

/-- Words of 64 bits. What does not fit wraps around. -/
instance : Arithmetic UInt64 where
  ofWord := UInt32.toUInt64
  toNat := UInt64.toNat

section Evaluate

variable {α : Type} [Arithmetic α]

open Arithmetic

/-- Where the superblock stands for a block size. -/
def superblockStart (blockSize : α) : α :=
  ofWord 4096 * blockSize

/-- Where the bitmap stands, behind the superblock and its spare. -/
def bitmapStart (blockSize : α) : α :=
  superblockStart blockSize + ofWord 2 * blockSize

/-- The number of the first block of the bitmap. -/
def firstBitmapBlock (blockSize : α) : α :=
  bitmapStart blockSize / blockSize

/-- The bits of a block. -/
def blockBits (blockSize : α) : α :=
  ofWord 8 * blockSize

/-- The blocks behind the superblock and its spare, each taken once for each bit of a block. -/
def sharedBits (blockSize blockCount : α) : α :=
  (blockCount - firstBitmapBlock blockSize) * blockBits blockSize

/-- How many blocks the bitmap gets. -/
def bitmapLength (blockSize blockCount : α) : α :=
  sharedBits blockSize blockCount / (blockBits blockSize + ofWord 1) / blockBits blockSize

/-- Where the data stands, behind the bitmap. -/
def dataStart (blockSize blockCount : α) : α :=
  bitmapStart blockSize + bitmapLength blockSize blockCount * blockSize

variable (α) in
/-- The layout that a superblock describes, worked out in some kind of numbers. -/
def evaluate (superblock : Superblock) (configured : UInt32) : Except Error Layout :=
  if superblock.blockSize ≠ configured then
    .error (.invalidImage (.blockSizeMismatch superblock.blockSize.toNat configured.toNat))
  else
    let blockSize : α := ofWord configured
    let blockCount : α := ofWord superblock.blockCount
    if toNat blockCount ≤ toNat (firstBitmapBlock blockSize) then
      .error (.invalidImage (.noRoomPastSuperblock (toNat blockCount)))
    else if toNat (bitmapLength blockSize blockCount) = 0 then
      .error (.invalidImage (.noRoomForBitmap (toNat blockCount)))
    else
      .ok {
        blockSize := toNat blockSize
        blockCount := toNat blockCount
        superblockAddress := toNat (superblockStart blockSize)
        bitmapAddress := toNat (bitmapStart blockSize)
        dataAddress := toNat (dataStart blockSize blockCount) }

end Evaluate

/-- In numbers without an end this is the layout. -/
theorem evaluate_nat (superblock : Superblock) (configured : UInt32) :
    evaluate Nat superblock configured = ofSuperblock superblock configured :=
  rfl

/-! ## The product that may wrap around -/

/-- Where the product of the layout wraps around, there are too few blocks for a bitmap, and the
rest that is left of the product is too small for one as well. -/
theorem quotient_wraps {n bits : Nat} (hn : n < 2 ^ 32) (hbits : 0 < bits) :
    n * bits % 2 ^ 64 / (bits + 1) / bits = n / (bits + 1) := by
  by_cases hfits : n * bits < 2 ^ 64
  · rw [Nat.mod_eq_of_lt hfits, quotient_eq n hbits]
  · have hlarge : 2 ^ 32 < bits := by
      by_contra hsmall
      have hproduct := Nat.mul_lt_mul_of_lt_of_le hn (Nat.le_of_not_lt hsmall) (by decide)
      omega
    have hrest : n * bits % 2 ^ 64 < (bits + 1) * bits :=
      calc n * bits % 2 ^ 64
          < 2 ^ 64 := Nat.mod_lt _ (by decide)
        _ = 2 ^ 32 * 2 ^ 32 := by decide
        _ ≤ (bits + 1) * bits := Nat.mul_le_mul (by omega) hlarge.le
    rw [Nat.div_div_eq_div_mul, Nat.div_eq_of_lt hrest, Nat.div_eq_of_lt (by omega)]

/-- The bitmap takes up less than the volume. -/
theorem share_mul_lt {n b : Nat} (hn : n < 2 ^ 32) : n / (8 * b + 1) * b < 2 ^ 32 :=
  calc n / (8 * b + 1) * b
      ≤ n / (8 * b + 1) * (8 * b + 1) := Nat.mul_le_mul_left _ (by omega)
    _ ≤ n := Nat.div_mul_le_self ..
    _ < 2 ^ 32 := hn

/-! ## Words -/

section Words

variable {a b : UInt64} {m n : Nat} (ha : a.toNat = m) (hb : b.toNat = n)
include ha hb

theorem toNat_add_of_lt (h : m + n < 2 ^ 64) : (a + b).toNat = m + n := by
  rw [UInt64.toNat_add, ha, hb, Nat.mod_eq_of_lt h]

theorem toNat_mul_of_lt (h : m * n < 2 ^ 64) : (a * b).toNat = m * n := by
  rw [UInt64.toNat_mul, ha, hb, Nat.mod_eq_of_lt h]

theorem toNat_sub_of_le (h : n ≤ m) : (a - b).toNat = m - n := by
  rw [UInt64.toNat_sub_of_le _ _ (UInt64.le_iff_toNat_le.mpr (ha ▸ hb ▸ h)), ha, hb]

end Words

theorem toNat_superblockStart (b : UInt32) :
    (superblockStart b.toUInt64).toNat = 4096 * b.toNat := by
  have := b.toNat_lt
  exact toNat_mul_of_lt rfl b.toNat_toUInt64 (by omega)

theorem toNat_bitmapStart (b : UInt32) : (bitmapStart b.toUInt64).toNat = 4098 * b.toNat := by
  have := b.toNat_lt
  have hspare : (UInt32.toUInt64 2 * b.toUInt64).toNat = 2 * b.toNat :=
    toNat_mul_of_lt rfl b.toNat_toUInt64 (by omega)
  calc (bitmapStart b.toUInt64).toNat
      = 4096 * b.toNat + 2 * b.toNat :=
        toNat_add_of_lt (toNat_superblockStart b) hspare (by omega)
    _ = 4098 * b.toNat := (Nat.add_mul ..).symm

theorem toNat_blockBits (b : UInt32) : (blockBits b.toUInt64).toNat = 8 * b.toNat := by
  have := b.toNat_lt
  exact toNat_mul_of_lt rfl b.toNat_toUInt64 (by omega)

section Shared

variable {b c : UInt32} (hpos : 0 < b.toNat)
include hpos

theorem toNat_firstBitmapBlock : (firstBitmapBlock b.toUInt64).toNat = 4098 := by
  rw [firstBitmapBlock, UInt64.toNat_div, toNat_bitmapStart, b.toNat_toUInt64,
    Nat.mul_div_cancel _ hpos]

variable (hpast : 4098 < c.toNat)
include hpast

/-- This is the one product that may not fit in a word. -/
theorem toNat_sharedBits :
    (sharedBits b.toUInt64 c.toUInt64).toNat = (c.toNat - 4098) * (8 * b.toNat) % 2 ^ 64 := by
  have hrest : (c.toUInt64 - firstBitmapBlock b.toUInt64).toNat = c.toNat - 4098 :=
    toNat_sub_of_le c.toNat_toUInt64 (toNat_firstBitmapBlock hpos) hpast.le
  rw [sharedBits, UInt64.toNat_mul, hrest, toNat_blockBits]

theorem toNat_bitmapLength :
    (bitmapLength b.toUInt64 c.toUInt64).toNat = (c.toNat - 4098) / (8 * b.toNat + 1) := by
  have := b.toNat_lt
  have := c.toNat_lt
  have hshare : (blockBits b.toUInt64 + UInt32.toUInt64 1).toNat = 8 * b.toNat + 1 :=
    toNat_add_of_lt (toNat_blockBits b) rfl (by omega)
  calc (bitmapLength b.toUInt64 c.toUInt64).toNat
      = (sharedBits b.toUInt64 c.toUInt64).toNat
          / (blockBits b.toUInt64 + UInt32.toUInt64 1).toNat / (blockBits b.toUInt64).toNat := by
        rw [← UInt64.toNat_div, ← UInt64.toNat_div]
        rfl
    _ = (c.toNat - 4098) * (8 * b.toNat) % 2 ^ 64 / (8 * b.toNat + 1) / (8 * b.toNat) := by
        rw [toNat_sharedBits hpos hpast, hshare, toNat_blockBits]
    _ = (c.toNat - 4098) / (8 * b.toNat + 1) := quotient_wraps (by omega) (by omega)

theorem toNat_dataStart :
    (dataStart b.toUInt64 c.toUInt64).toNat
      = (4098 + (c.toNat - 4098) / (8 * b.toNat + 1)) * b.toNat := by
  have := b.toNat_lt
  have := c.toNat_lt
  have hlength : (c.toNat - 4098) / (8 * b.toNat + 1) * b.toNat < 2 ^ 32 :=
    share_mul_lt (by omega)
  have hbitmap : (bitmapLength b.toUInt64 c.toUInt64 * b.toUInt64).toNat
      = (c.toNat - 4098) / (8 * b.toNat + 1) * b.toNat :=
    toNat_mul_of_lt (toNat_bitmapLength hpos hpast) b.toNat_toUInt64 (by omega)
  calc (dataStart b.toUInt64 c.toUInt64).toNat
      = 4098 * b.toNat + (c.toNat - 4098) / (8 * b.toNat + 1) * b.toNat :=
        toNat_add_of_lt (toNat_bitmapStart b) hbitmap (by omega)
    _ = (4098 + (c.toNat - 4098) / (8 * b.toNat + 1)) * b.toNat := (Nat.add_mul ..).symm

end Shared

/-- In words the layout is the same, whatever the block size and the number of blocks are. -/
theorem evaluate_words {superblock : Superblock} (hpos : 0 < superblock.blockSize.toNat)
    (configured : UInt32) :
    evaluate UInt64 superblock configured = ofSuperblock superblock configured := by
  by_cases hsame : superblock.blockSize = configured
  case neg => rw [evaluate, ofSuperblock, if_pos hsame, if_pos hsame]
  rw [hsame] at hpos
  rw [ofSuperblock_eq hsame hpos, evaluate, if_neg (not_not.mpr hsame)]
  dsimp only [Arithmetic.toNat, Arithmetic.ofWord]
  simp only [UInt32.toNat_toUInt64, toNat_firstBitmapBlock hpos]
  by_cases hfew : superblock.blockCount.toNat ≤ 4098
  · rw [if_pos hfew, if_pos hfew]
  · have hpast := Nat.lt_of_not_le hfew
    simp only [if_neg hfew, toNat_bitmapLength hpos hpast, toNat_superblockStart,
      toNat_bitmapStart, toNat_dataStart hpos hpast, share_eq_zero_iff]
    rfl

/-! ## Superblocks that were read -/

/-- The product does not fit in a word only for the two largest block sizes. -/
theorem large_of_wraps {superblock : Superblock} (hcoded : superblock.Coded)
    (hwraps : 2 ^ 64 ≤ (superblock.blockCount.toNat - 4098) * 8 * superblock.blockSize.toNat) :
    2 ^ 30 ≤ superblock.blockSize.toNat ∧ 4098 < superblock.blockCount.toNat := by
  obtain ⟨k, -, -, hpow⟩ := hcoded
  have hcount := superblock.blockCount.toNat_lt
  rw [hpow] at hwraps ⊢
  constructor
  · refine Nat.pow_le_pow_right (by decide) ?_
    by_contra hk
    have hsmall : (2 : Nat) ^ k ≤ 2 ^ 29 := Nat.pow_le_pow_right (by decide) (by omega)
    have hfits := Nat.mul_le_mul_left ((superblock.blockCount.toNat - 4098) * 8) hsmall
    omega
  · by_contra hfew
    have hnone := Nat.sub_eq_zero_of_le (Nat.le_of_not_lt hfew)
    rw [hnone, Nat.zero_mul] at hwraps
    omega

/-- No volume has so many blocks that a bitmap of blocks so large has room. -/
theorem ofSuperblock_large {superblock : Superblock} (hlarge : 2 ^ 30 ≤ superblock.blockSize.toNat)
    (hpast : 4098 < superblock.blockCount.toNat) :
    ofSuperblock superblock superblock.blockSize
      = .error (.invalidImage (.noRoomForBitmap superblock.blockCount.toNat)) := by
  have hcount := superblock.blockCount.toNat_lt
  rw [ofSuperblock_eq rfl (by omega), if_neg (by omega), if_pos (by omega)]

/-- **A layout in words is the layout.** For every superblock that can be read and every block size,
words of 64 bits give the same layout or the same refusal as numbers without an end. The product of
the blocks and their bits does not fit in a word only if blocks have at least `2 ^ 30` bytes, and
for such blocks both refuse the volume since there is no room for a bitmap. If a layout is given,
the end of the volume, the address of every block number and that of every block with a bit fit in a
word. -/
theorem evaluate_wraps {bytes : ByteArray} {superblock : Superblock}
    (h : Superblock.decode bytes = .ok superblock) (configured : UInt32) :
    evaluate UInt64 superblock configured = evaluate Nat superblock configured ∧
    evaluate Nat superblock configured = ofSuperblock superblock configured ∧
    (2 ^ 64 ≤ (superblock.blockCount.toNat - 4098) * 8 * superblock.blockSize.toNat →
      2 ^ 30 ≤ superblock.blockSize.toNat ∧ 4098 < superblock.blockCount.toNat) ∧
    (2 ^ 30 ≤ superblock.blockSize.toNat → 4098 < superblock.blockCount.toNat →
      evaluate UInt64 superblock superblock.blockSize
        = .error (.invalidImage (.noRoomForBitmap superblock.blockCount.toNat)) ∧
      evaluate Nat superblock superblock.blockSize
        = .error (.invalidImage (.noRoomForBitmap superblock.blockCount.toNat))) ∧
    ∀ layout, evaluate UInt64 superblock configured = .ok layout →
      layout.endAddress < 2 ^ 64 ∧
      (∀ block : UInt32, layout.blockAddress block.toNat < 2 ^ 64) ∧
      ∀ a ∈ layout.covered, a < 2 ^ 64 := by
  have hcoded := (Superblock.of_decode h).coded
  have hsize := Superblock.isBlockSize_of_decode h
  have hwords := evaluate_words (pos_of_usualSize hsize)
  refine ⟨hwords configured, evaluate_nat superblock configured, large_of_wraps hcoded,
    fun hlarge hpast => ?_, fun layout hlayout => ?_⟩
  · have hrefused := ofSuperblock_large hlarge hpast
    exact ⟨(hwords _).trans hrefused, (evaluate_nat ..).trans hrefused⟩
  · rw [hwords configured] at hlayout
    obtain rfl := (of_ofSuperblock hlayout).1
    have regular := regular_of_ofSuperblock hsize hlayout
    have hend := regular.endAddress_lt
    refine ⟨by omega, fun block => ?_, fun a ha => ?_⟩
    · exact Nat.lt_trans (regular.blockAddress_lt block.toNat_lt) (by decide)
    · have hinside := (regular.inData_of_mem ha).2
      omega

/-- Blocks of the largest size, and as many of them as can be counted. -/
def enormous : Superblock :=
  ⟨2147483648, 4294967295, 0⟩

/-- Here the product wraps around, and the volume is refused. -/
theorem evaluate_wraps_enormous :
    (2 ^ 64 ≤ (enormous.blockCount.toNat - 4098) * 8 * enormous.blockSize.toNat) ∧
      evaluate UInt64 enormous 2147483648
        = .error (.invalidImage (.noRoomForBitmap 4294967295)) := by
  have hread : Superblock.decode (enormous.encode ++ ByteArray.empty) = .ok enormous :=
    Superblock.decode_of_heads ⟨31, by decide, by decide, rfl⟩ ⟨_, rfl⟩
  have hwraps : 2 ^ 64 ≤ (enormous.blockCount.toNat - 4098) * 8 * enormous.blockSize.toNat := by
    decide
  obtain ⟨-, -, hlarge, hrefused, -⟩ := evaluate_wraps hread 2147483648
  obtain ⟨hsize, hpast⟩ := hlarge hwraps
  exact ⟨hwraps, (hrefused hsize hpast).1⟩

end ChainFs.Layout
