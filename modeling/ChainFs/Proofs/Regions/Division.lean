import ChainFs.Proofs.Bitmap.Requests
import ChainFs.Proofs.Volume.Opened

/-!
# How the blocks of a volume are divided up

Behind the superblock and its spare each block of the bitmap needs, besides itself, a block of data
for each of its bits. So the bitmap gets as many blocks as this share goes into what there is, and
what remains at the end is data that no bit speaks of.

* `Layout.regions` — the regions of a volume from front to back;
* `Layout.dataBlocks`, `Layout.allocatable` — the blocks of the data region, and those with a bit;
* `Layout.Division` — how all blocks are divided up between them;
* `Layout.ofSuperblock_divides` — this is how, for every size of a volume that has room for it, and
  a larger volume has at least as many blocks with a bit.

A layout is given for counts without any bounds, as numbers without an end; that it does not change
when it is worked out in machine words is a question of its own.
-/

namespace ChainFs.Layout

open Bitmap

variable {layout : Layout}

/-- The superblock, its spare, the bitmap and the data, each from its first byte to behind its
last. -/
def regions (layout : Layout) : List (Nat × Nat) :=
  [(layout.superblockAddress, layout.superblockAddress + layout.blockSize),
    (layout.superblockAddress + layout.blockSize, layout.superblockAddress + 2 * layout.blockSize),
    (layout.bitmapAddress, layout.dataAddress),
    (layout.dataAddress, layout.endAddress)]

/-- The blocks of the data region by their addresses. -/
def dataBlocks (layout : Layout) : Finset Nat :=
  {a ∈ Finset.Ico layout.dataAddress layout.endAddress | a % layout.blockSize = 0}

/-- Those of them that the bitmap has a bit for. -/
def allocatable (layout : Layout) : Finset Nat :=
  {a ∈ layout.dataBlocks | (locate layout a).isOk}

theorem mem_dataBlocks {a : Nat} : a ∈ layout.dataBlocks ↔ layout.IsBlock a := by
  rw [dataBlocks, Finset.mem_filter, Finset.mem_Ico]
  exact ⟨fun ⟨hdata, hmod⟩ => ⟨hmod, hdata⟩, fun ⟨hmod, hdata⟩ => ⟨hdata, hmod⟩⟩

/-- How a volume is divided up whose blocks have `b` bytes and that has `n` blocks behind the
superblock and its spare. -/
structure Division (layout : Layout) (b n : Nat) : Prop where
  bitmapBlocks_eq : layout.bitmapBlocks = n / (8 * b + 1)
  bitmapBlocks_pos : 1 ≤ layout.bitmapBlocks
  aligned : ∀ region ∈ layout.regions, region.1 % b = 0 ∧ region.2 % b = 0
  inside : ∀ region ∈ layout.regions, region.1 < region.2 ∧ region.2 ≤ layout.endAddress
  apart : layout.regions.Pairwise fun front back => front.2 ≤ back.1
  /-- There are data blocks enough for the bits of the bitmap. -/
  enough : 8 * b * layout.bitmapBlocks ≤ layout.dataBlocks.card
  /-- Every bit of the bitmap speaks of a block inside the volume. -/
  described : ∀ bit ∈ bits layout, ∃ a ∈ layout.dataBlocks,
    a + b ≤ layout.endAddress ∧ place layout a = .ok bit
  /-- What remains when the shares are given out has no bit. -/
  card_rest : (layout.dataBlocks \ layout.allocatable).card = n % (8 * b + 1)
  /-- The blocks without a bit are the last ones. -/
  rest_last : ∀ a ∈ layout.dataBlocks,
    a ∉ layout.allocatable ↔ layout.endAddress - n % (8 * b + 1) * b ≤ a

/-! ## Blocks with a bit and without -/

namespace Regular

variable (regular : layout.Regular)
include regular

/-- The blocks with a bit are the covered ones. -/
theorem allocatable_eq : layout.allocatable = layout.covered := by
  ext a
  rw [allocatable, Finset.mem_filter, mem_dataBlocks]
  by_cases ha : a ∈ layout.covered
  · obtain ⟨i, hi, rfl⟩ := mem_covered.mp ha
    obtain ⟨position, hlocate, -⟩ := locate_eq regular hi
    rw [hlocate]
    exact iff_of_true ⟨regular.isBlock_of_mem ha, rfl⟩ ha
  · rw [locate_error regular ha]
    exact iff_of_false (fun h => by cases h.2) ha

/-- The data blocks are numbered. -/
theorem mem_dataBlocks_iff {a : Nat} : a ∈ layout.dataBlocks ↔
    ∃ i < layout.blockCount - (4098 + layout.bitmapBlocks), layout.dataBlock i = a := by
  have hpos := regular.blockSize_pos
  rw [mem_dataBlocks]
  constructor
  · rintro ⟨hmod, hdata, hend⟩
    obtain ⟨q, rfl⟩ := Nat.dvd_of_mod_eq_zero hmod
    rw [Nat.mul_comm] at hdata hend ⊢
    rw [regular.data_eq_mul] at hdata
    have hfirst := Nat.le_of_mul_le_mul_right hdata hpos
    have hlast := Nat.lt_of_mul_lt_mul_right hend
    refine ⟨q - (4098 + layout.bitmapBlocks), by omega, ?_⟩
    rw [regular.dataBlock_eq_mul, Nat.add_sub_cancel' hfirst]
  · rintro ⟨i, hi, rfl⟩
    have hlast : 4098 + layout.bitmapBlocks + i < layout.blockCount := by omega
    refine ⟨?_, Nat.le_add_right .., ?_⟩
    · rw [regular.dataBlock_eq_mul, Nat.mul_mod_left]
    · rw [regular.dataBlock_eq_mul]
      exact Nat.mul_lt_mul_of_pos_right hlast hpos

theorem card_dataBlocks :
    layout.dataBlocks.card = layout.blockCount - (4098 + layout.bitmapBlocks) := by
  have himage : layout.dataBlocks
      = (Finset.range (layout.blockCount - (4098 + layout.bitmapBlocks))).image
          layout.dataBlock := by
    ext a
    rw [regular.mem_dataBlocks_iff, Finset.mem_image]
    simp only [Finset.mem_range]
  rw [himage, Finset.card_image_of_injective _ regular.dataBlock_injective, Finset.card_range]

theorem card_allocatable : layout.allocatable.card = layout.bitmapBits := by
  rw [regular.allocatable_eq, regular.card_covered]

theorem card_without_bit : (layout.dataBlocks \ layout.allocatable).card
    = layout.blockCount - (4098 + layout.bitmapBlocks) - layout.bitmapBits := by
  have hsubset : layout.allocatable ⊆ layout.dataBlocks := Finset.filter_subset ..
  rw [Finset.card_sdiff_of_subset hsubset, regular.card_dataBlocks, regular.card_allocatable]

/-- The bits are given to the first data blocks. -/
theorem not_mem_allocatable_iff {a : Nat} (ha : a ∈ layout.dataBlocks) :
    a ∉ layout.allocatable ↔ layout.dataBlock layout.bitmapBits ≤ a := by
  obtain ⟨i, -, rfl⟩ := regular.mem_dataBlocks_iff.mp ha
  have hmem : layout.dataBlock i ∈ layout.covered ↔ i < layout.bitmapBits := by
    rw [mem_covered]
    refine ⟨fun ⟨j, hj, heq⟩ => ?_, fun hi => ⟨i, hi, rfl⟩⟩
    exact regular.dataBlock_injective heq ▸ hj
  have hle : layout.dataBlock layout.bitmapBits ≤ layout.dataBlock i ↔ layout.bitmapBits ≤ i := by
    rw [regular.dataBlock_eq_mul, regular.dataBlock_eq_mul,
      Nat.mul_le_mul_right_iff regular.blockSize_pos]
    omega
  rw [regular.allocatable_eq, hmem, hle, Nat.not_lt]

/-- Every bit of the bitmap speaks of a block inside the volume. -/
theorem exists_of_mem_bits {bit : Nat × Nat} (h : bit ∈ bits layout) :
    ∃ a ∈ layout.dataBlocks, a + layout.blockSize ≤ layout.endAddress ∧
      place layout a = .ok bit := by
  obtain ⟨x, k⟩ := bit
  obtain ⟨i, hi, rfl, rfl⟩ := (mem_bits_iff regular).mp h
  exact ⟨layout.dataBlock i,
    mem_dataBlocks.mpr (regular.isBlock_of_mem (mem_covered.mpr ⟨i, hi, rfl⟩)),
    regular.dataBlock_end hi, place_dataBlock regular hi⟩

/-! ## Regions -/

theorem regions_inside {region : Nat × Nat} (h : region ∈ layout.regions) :
    region.1 < region.2 ∧ region.2 ≤ layout.endAddress := by
  have hpos := regular.blockSize_pos
  have hspare := regular.spare_end
  have hbitmap := regular.bitmap_lt_data
  have hdata := regular.data_le_end
  simp only [regions, List.mem_cons, List.not_mem_nil, or_false] at h
  rcases h with rfl | rfl | rfl | rfl <;> dsimp only <;> omega

theorem regions_aligned {region : Nat × Nat} (h : region ∈ layout.regions) :
    region.1 % layout.blockSize = 0 ∧ region.2 % layout.blockSize = 0 := by
  have hsuperblock : layout.superblockAddress % layout.blockSize = 0 := by
    rw [regular.superblock_eq, Nat.mul_mod_left]
  have hbitmap : layout.bitmapAddress % layout.blockSize = 0 := by
    rw [regular.bitmap_eq, Nat.mul_mod_left]
  have hdata : layout.dataAddress % layout.blockSize = 0 := regular.isBlock_data.aligned
  have hend : layout.endAddress % layout.blockSize = 0 := Nat.mul_mod_left ..
  simp only [regions, List.mem_cons, List.not_mem_nil, or_false] at h
  rcases h with rfl | rfl | rfl | rfl
  · exact ⟨hsuperblock, by rw [Nat.add_mod_right, hsuperblock]⟩
  · exact ⟨by rw [Nat.add_mod_right, hsuperblock],
      by rw [Nat.add_mul_mod_self_right, hsuperblock]⟩
  · exact ⟨hbitmap, hdata⟩
  · exact ⟨hdata, hend⟩

theorem regions_apart : layout.regions.Pairwise fun front back => front.2 ≤ back.1 := by
  have hspare := regular.spare_end
  have hbitmap := regular.bitmap_lt_data
  simp only [regions, List.pairwise_cons, List.mem_cons, List.not_mem_nil, or_false,
    forall_eq_or_imp, forall_eq, List.Pairwise.nil, and_true, false_implies, implies_true]
  omega

end Regular

/-! ## The division of a volume -/

theorem bitmapBits_ofCounts {b : Nat} (hpos : 0 < b) (count : Nat) :
    (ofCounts b count).bitmapBits = 8 * b * ((count - 4098) / (8 * b + 1)) := by
  have hb : (ofCounts b count).blockSize = b := rfl
  rw [bitmapBits, bitmapBlocks_ofCounts hpos, hb]
  ring

/-- Every layout with enough blocks divides them up in this way. -/
theorem division_ofCounts {b count : Nat} (hsize : UsualSize b)
    (hroom : 4098 + (8 * b + 1) ≤ count) (hlt : count < 2 ^ 32) :
    (ofCounts b count).Division b (count - 4098) := by
  have hpos := pos_of_usualSize hsize
  have regular : (ofCounts b count).Regular := arranged_ofCounts hpos hsize hroom hlt
  have hb : (ofCounts b count).blockSize = b := rfl
  have hcount : (ofCounts b count).blockCount = count := rfl
  have hblocks := bitmapBlocks_ofCounts hpos count
  have hbits := bitmapBits_ofCounts hpos count
  -- the bitmap and its bits use up whole shares, and the remainder is left over
  have hshares := Nat.div_add_mod (count - 4098) (8 * b + 1)
  rw [Nat.add_mul, Nat.one_mul] at hshares
  have hrest : count - (4098 + (ofCounts b count).bitmapBlocks) - (ofCounts b count).bitmapBits
      = (count - 4098) % (8 * b + 1) := by
    omega
  have hlast : (ofCounts b count).endAddress - (count - 4098) % (8 * b + 1) * b
      = (ofCounts b count).dataBlock (ofCounts b count).bitmapBits := by
    have hbehind : count - (count - 4098) % (8 * b + 1)
        = 4098 + (ofCounts b count).bitmapBlocks + (ofCounts b count).bitmapBits := by
      omega
    rw [endAddress, regular.dataBlock_eq_mul, hb, hcount, ← Nat.sub_mul, hbehind]
  refine ⟨hblocks, regular.bitmapBlocks_pos, fun _ => regular.regions_aligned,
    fun _ => regular.regions_inside, regular.regions_apart, ?_, fun _ => regular.exists_of_mem_bits,
    ?_, fun a ha => ?_⟩
  · rw [regular.card_dataBlocks, hcount]
    rw [hblocks] at hrest ⊢
    omega
  · rw [regular.card_without_bit, hcount, hrest]
  · rw [regular.not_mem_allocatable_iff ha, hlast]

/-- How many blocks can be allocated on the volume of a superblock, none if it is refused. -/
def capacity (superblock : Superblock) (blockSize : UInt32) : Nat :=
  match ofSuperblock superblock blockSize with
  | .ok layout => layout.allocatable.card
  | .error _ => 0

/-- The bits of the bitmap blocks there is room for. -/
theorem capacity_eq {superblock : Superblock} {blockSize : UInt32}
    (hsame : superblock.blockSize = blockSize) (hsize : UsualSize blockSize.toNat) :
    capacity superblock blockSize = 8 * blockSize.toNat *
      ((superblock.blockCount.toNat - 4098) / (8 * blockSize.toNat + 1)) := by
  have hpos := pos_of_usualSize hsize
  have hfew : superblock.blockCount.toNat - 4098 < 8 * blockSize.toNat + 1 →
      0 = 8 * blockSize.toNat *
        ((superblock.blockCount.toNat - 4098) / (8 * blockSize.toNat + 1)) :=
    fun hlt => by rw [Nat.div_eq_of_lt hlt, Nat.mul_zero]
  rw [capacity, ofSuperblock_eq hsame hpos]
  split_ifs with hpast hroom
  · exact hfew (by omega)
  · exact hfew (by omega)
  · have regular : (ofCounts blockSize.toNat superblock.blockCount.toNat).Regular :=
      arranged_ofCounts hpos hsize (Nat.le_of_not_lt hroom) superblock.blockCount.toNat_lt
    exact regular.card_allocatable.trans (bitmapBits_ofCounts hpos _)

/-- **The layout is sound for volumes of every size.** A superblock with the block size that is
asked for describes a layout exactly if the blocks behind the superblock and its spare, of which
there may be fewer than none, suffice for one block of the bitmap and a block for each of its bits.
The blocks are then divided up as a `Division` says, and a volume with more blocks has no fewer that
can be allocated. -/
theorem ofSuperblock_divides (superblock : Superblock) {blockSize : UInt32}
    (hsame : superblock.blockSize = blockSize) (hsize : Volume.isBlockSize blockSize.toNat) :
    ((∃ layout, ofSuperblock superblock blockSize = .ok layout) ↔
      8 * (blockSize.toNat : Int) + 1 ≤ (superblock.blockCount.toNat : Int) - 4098) ∧
    (∀ layout, ofSuperblock superblock blockSize = .ok layout →
      layout.Division blockSize.toNat (superblock.blockCount.toNat - 4098)) ∧
    ∀ larger : Superblock, larger.blockSize = blockSize →
      superblock.blockCount ≤ larger.blockCount →
      capacity superblock blockSize ≤ capacity larger blockSize := by
  have hpos := pos_of_usualSize hsize
  refine ⟨⟨fun ⟨layout, h⟩ => ?_, fun hroom => ?_⟩, fun layout h => ?_, fun larger hsame' hle => ?_⟩
  · obtain ⟨-, -, hroom, -⟩ := of_ofSuperblock h
    omega
  · rw [ofSuperblock_eq hsame hpos, if_neg (by omega), if_neg (by omega)]
    exact ⟨_, rfl⟩
  · obtain ⟨-, -, hroom, rfl⟩ := of_ofSuperblock h
    exact division_ofCounts hsize hroom superblock.blockCount.toNat_lt
  · have hle : superblock.blockCount.toNat ≤ larger.blockCount.toNat := hle
    rw [capacity_eq hsame hsize, capacity_eq hsame' hsize]
    exact Nat.mul_le_mul_left _ (Nat.div_le_div_right (Nat.sub_le_sub_right hle _))

/-- With two bitmap blocks the last eight blocks have no bit; one block fewer than in the smallest
volume is too few. -/
theorem ofSuperblock_divides_twice :
    (∃ layout, ofSuperblock ⟨512, 12300, 7⟩ 512 = .ok layout ∧ layout.Division 512 8202 ∧
      layout.bitmapBlocks = 2 ∧ (layout.dataBlocks \ layout.allocatable).card = 8) ∧
    (¬ ∃ layout, ofSuperblock ⟨512, 8194, 0⟩ 512 = .ok layout) ∧
    capacity ⟨512, 8194, 0⟩ 512 ≤ capacity ⟨512, 12300, 7⟩ 512 := by
  have hsize : Volume.isBlockSize (512 : UInt32).toNat := by decide
  obtain ⟨hiff, hdivides, -⟩ := ofSuperblock_divides ⟨512, 12300, 7⟩ rfl hsize
  obtain ⟨hnone, -, hgrows⟩ := ofSuperblock_divides ⟨512, 8194, 0⟩ rfl hsize
  obtain ⟨layout, hlayout⟩ := hiff.mpr (by decide)
  have division := hdivides layout hlayout
  exact ⟨⟨layout, hlayout, division, division.bitmapBlocks_eq, division.card_rest⟩,
    mt hnone.mp (by decide), hgrows _ rfl (by decide)⟩

end ChainFs.Layout
