import ChainFs.Chain
import ChainFs.Proofs.Bitmap
import ChainFs.Proofs.Volume.Opened
import ChainFs.Proofs.Words.Basic
import Mathlib.Algebra.Order.Floor.Div

/-!
# Regions, bitmap and blocks on a machine

What a regular layout says keeps every number small: all its regions end below `2 ^ 61`.

The bitmap of a regular layout has less than `2 ^ 32` bits, since each of them speaks of a block
with a 32-bit number. So a block has fewer than `2 ^ 29` bytes, and a block number times a block
size stays below `2 ^ 61`. Every sum and every product below is of such numbers, and this is what
each step cites. Where an access may be refused by the store, it is refused in the same way here; a
crash is only what the machine itself could not do.

* `Layout.Regular.blockSize_lt`, `Layout.Regular.endAddress_lt` — how small;
* `Words.Limits` — how many blocks the loops of a call may visit;
* `Words.locate`, `Words.assign`, `Words.nextFree`, `Words.acquire` — the bitmap and the blocks, in
  machine words;
* `Words.acquire_of` — and they do not crash.
-/

namespace ChainFs

namespace Layout.Regular

variable {layout : Layout} (regular : layout.Regular)
include regular

/-- A bitmap block has fewer bits than there are 32-bit numbers. -/
theorem blockSize_lt : layout.blockSize < 2 ^ 29 := by
  have hbits := regular.bitmapBits_lt
  have hle : layout.blockSize * 8 ≤ layout.bitmapBlocks * 8 * layout.blockSize := by
    rw [Nat.mul_comm layout.blockSize 8]
    exact Nat.mul_le_mul_right _ (Nat.le_mul_of_pos_left 8 regular.bitmapBlocks_pos)
  rw [Layout.bitmapBits] at hbits
  omega

/-- A block number makes a small address. -/
theorem blockAddress_lt {number : Nat} (h : number < 2 ^ 32) :
    number * layout.blockSize < 2 ^ 61 :=
  calc number * layout.blockSize
      ≤ number * 2 ^ 29 := Nat.mul_le_mul_left _ (Nat.le_of_lt regular.blockSize_lt)
    _ < 2 ^ 32 * 2 ^ 29 := Nat.mul_lt_mul_of_pos_right h (by decide)
    _ = 2 ^ 61 := by decide

/-- All of a volume lies below `2 ^ 61`, so an address leaves room for the sums that are made with
it. -/
theorem endAddress_lt : layout.endAddress < 2 ^ 61 :=
  regular.blockAddress_lt regular.blockCount_lt

theorem dataAddress_lt : layout.dataAddress < 2 ^ 61 := by
  have := regular.data_le_end
  have := regular.endAddress_lt
  omega

/-- The same for the address of any block of the data region. -/
theorem isBlock_lt {a : Nat} (h : layout.IsBlock a) : a < 2 ^ 61 :=
  Nat.lt_trans h.inData.2 regular.endAddress_lt

end Layout.Regular

namespace Words

variable {σ : Type} [Store σ]

/-! ## Stores -/

/-- Reads from the store, which looks at its own bounds. -/
def read (store : σ) (offset length : Nat) : Checked ByteArray :=
  .of (Store.read store offset length)

/-- Reads a number from the store. -/
def readNumber (width : Nat) (store : σ) (offset : Nat) : Checked Nat :=
  .of (Store.readNumber width store offset)

/-- Writes to the store. -/
def write (offset : Nat) (bytes : ByteArray) : Changing σ Unit :=
  .of (Store.write offset bytes)

/-- Writes a number to the store. -/
def writeNumber (width offset n : Nat) : Changing σ Unit :=
  .of (Store.writeNumber width offset n)

/-! ## Limits -/

/-- How many blocks the loops of a call may visit. -/
structure Limits where
  /-- In one walk through a directory. -/
  walk : Nat
  /-- In a read or a write that reaches to some place of the payload of a chain. -/
  chain : Nat → Nat

/-- A walk may visit as many blocks as the bitmap has bits, and one more. A read or a write may
visit as many blocks as hold the payload up to the place it reaches to. -/
def Limits.of (layout : Layout) : Limits where
  walk := 8 * layout.blockSize * layout.bitmapBlocks + 1
  chain size := size ⌈/⌉ (layout.blockSize - Layout.linkSize)

/-- The limit of a walk is one more than the bits of the bitmap, as for a cursor's budget. -/
@[simp] theorem Limits.of_walk (layout : Layout) : (of layout).walk = layout.bitmapBits + 1 := by
  rw [of, Layout.bitmapBits]
  ring

/-- The limit of a chain is the number of blocks that hold the payload up to the place. -/
@[simp] theorem Limits.of_chain (layout : Layout) :
    (of layout).chain = Chain.blocksFor layout := by
  funext size
  exact Nat.ceilDiv_eq_add_pred_div ..

/-! ## Regions -/

/-- The end of the volume, by a product that has to fit. -/
def endAddress (layout : Layout) : Checked Nat :=
  mul layout.blockCount layout.blockSize

/-- The payload of a block, by a difference that must not be negative. -/
def payloadSize (layout : Layout) : Checked Nat :=
  sub layout.blockSize Layout.linkSize

/-- The number of bitmap blocks, by the room there is between two regions. -/
def bitmapBlocks (layout : Layout) : Checked Nat := do
  div (← sub layout.dataAddress layout.bitmapAddress) layout.blockSize

/-- The address of a block, by a product that has to fit. -/
def blockAddress (layout : Layout) (block : Nat) : Checked Nat :=
  mul block layout.blockSize

/-- Whether an address is in the data region. -/
def inData (layout : Layout) (address : Nat) : Checked Bool := do
  let stop ← endAddress layout
  return layout.dataAddress ≤ address && address < stop

/-- The number of the block at an address, unless the address is no block's or the number too
large. -/
def blockNumber (layout : Layout) (address : Nat) : Checked Nat := do
  let place ← mod address layout.blockSize
  let number ← div address layout.blockSize
  if place ≠ 0 ∨ UInt32.size ≤ number then refuse (.invalidAddress address) else return number

section

variable {layout : Layout} (regular : layout.Regular)
include regular

/-- The product fits, because the layout is regular. -/
theorem endAddress_eq : endAddress layout = .ok layout.endAddress :=
  mul_eq (Nat.lt_trans regular.endAddress_lt (by decide))

theorem payloadSize_eq : payloadSize layout = .ok layout.payloadSize :=
  sub_eq (Nat.le_trans (by decide) regular.blockSize_ge)

theorem bitmapBlocks_eq : bitmapBlocks layout = .ok layout.bitmapBlocks := by
  rw [bitmapBlocks, sub_eq (Nat.le_of_lt regular.bitmap_lt_data), Checked.ok_bind,
    div_eq regular.blockSize_pos]
  rfl

/-- Any number that a link or a record can hold makes an address that fits. -/
theorem blockAddress_eq {block : Nat} (h : block < 2 ^ 32) :
    blockAddress layout block = .ok (layout.blockAddress block) :=
  mul_eq (Nat.lt_trans (regular.blockAddress_lt h) (by decide))

theorem inData_eq (address : Nat) :
    inData layout address = .ok (decide (layout.InData address)) := by
  rw [inData, endAddress_eq regular, Checked.ok_bind, ← Bool.decide_and]
  rfl

/-- The two divisions are by the size of a block, which is not zero. -/
theorem blockNumber_of (address : Nat) :
    blockNumber layout address = .of (layout.blockNumber address) := by
  rw [blockNumber, mod_eq regular.blockSize_pos, div_eq regular.blockSize_pos, Checked.ok_bind,
    Checked.ok_bind, Layout.blockNumber]
  split <;> rfl

end

/-! ## The bitmap -/

/-- Finds the bit of the block at an address. -/
def locate (layout : Layout) (address : Nat) : Checked Bitmap.Position := do
  let place ← mod address layout.blockSize
  let inside ← inData layout address
  if place ≠ 0 ∨ ¬ inside then refuse (.invalidAddress address)
  else
    let index ← div (← sub address layout.dataAddress) layout.blockSize
    let bits ← mul 8 layout.blockSize
    let block ← add layout.bitmapAddress (← mul (← div index bits) layout.blockSize)
    if layout.dataAddress ≤ block then refuse (.invalidAddress address)
    else return { block, byte := ← div (← mod index bits) 8, bit := ← mod index 8 }

/-- Sets or clears the bit of the block at an address and tells what it was before. -/
def assign (layout : Layout) (address : Nat) (value : Bool) : Changing σ Bool := do
  let position ← check (locate layout address)
  let block ← ask (read · position.block layout.blockSize)
  let byte ← check (byteAt block position.byte)
  let bit ← check (shift position.bit)
  write position.block (Bitmap.blockWithBit block position.byte bit value)
  return Bitmap.hasBit byte bit

/-- Looks for a clear bit in `left` blocks of the bitmap, from block `i` on. Of a bit found, the
byte and the place in the byte are known. -/
def nextFreeFrom (layout : Layout) (store : σ) : (i left : Nat) → Checked Nat
  | _, 0 => refuse .outOfSpace
  | i, left + 1 => do
    let start ← add layout.bitmapAddress (← mul i layout.blockSize)
    let block ← read store start layout.blockSize
    match Bitmap.firstClear? block 0 with
    | none => nextFreeFrom layout store (i + 1) left
    | some k =>
      let front ← mul (← mul i 8) layout.blockSize
      let index ← add (← add front (← mul (k / 8) 8)) (k % 8)
      let address ← add layout.dataAddress (← mul index layout.blockSize)
      if (← endAddress layout) ≤ address then refuse .outOfSpace else return address

/-- The address of the first free block. -/
def nextFree (layout : Layout) (store : σ) : Checked Nat := do
  nextFreeFrom layout store 0 (← bitmapBlocks layout)

/-- Takes the first free block: marks it, fills it with zeros and counts it. -/
def acquire (layout : Layout) : Changing σ Nat := do
  let address ← ask (nextFree layout)
  let wasAllocated ← assign layout address true
  write address (Bytes.zeros layout.blockSize)
  countAcquired wasAllocated
  return address
where
  countAcquired (wasAllocated : Bool) : Changing σ Unit :=
    if wasAllocated then pure ()
    else do
      let counter ← check (add layout.superblockAddress Superblock.allocCountOffset)
      let count ← ask (readNumber 4 · counter)
      writeNumber 4 counter (Block.increment count)

/-- The bit of a block is in a block of the bitmap. -/
theorem locate_bounds {layout : Layout} (regular : layout.Regular) {address : Nat}
    {position : Bitmap.Position} (h : Bitmap.locate layout address = .ok position) :
    position.block < layout.dataAddress ∧ position.byte < layout.blockSize ∧ position.bit < 8 := by
  have hpos := regular.blockSize_pos
  rw [Bitmap.locate] at h
  split at h
  · cases h
  dsimp only at h
  split at h
  · cases h
  rename_i hblock
  obtain rfl := Except.ok.inj h
  exact ⟨Nat.lt_of_not_le hblock, Nat.div_lt_of_lt_mul (Nat.mod_lt _ (by omega)),
    Nat.mod_lt _ (by decide)⟩

section

variable {layout : Layout} (regular : layout.Regular)
include regular

/-- **The bit of a block** is found without a crash: past the check the address is not below the
data region. -/
theorem locate_of (address : Nat) : locate layout address = .of (Bitmap.locate layout address) := by
  have hpos := regular.blockSize_pos
  have hsize := regular.blockSize_lt
  rw [locate, mod_eq hpos, inData_eq regular, Checked.ok_bind, Checked.ok_bind, Bitmap.locate]
  simp only [decide_eq_true_eq]
  split
  · rfl
  rename_i hdata
  obtain ⟨-, hle, hlt⟩ : _ ∧ layout.InData address := by simpa using hdata
  have hend := regular.endAddress_lt
  have hbitmap := regular.bitmap_lt_data
  have hindex : (address - layout.dataAddress) / layout.blockSize / (8 * layout.blockSize)
      * layout.blockSize ≤ address - layout.dataAddress :=
    calc _ ≤ (address - layout.dataAddress) / layout.blockSize * layout.blockSize :=
          Nat.mul_le_mul_right _ (Nat.div_le_self ..)
      _ ≤ _ := Nat.div_mul_le_self ..
  simp (disch := omega) only [sub_eq, div_eq, mul_eq, add_eq, mod_eq, Checked.ok_bind]
  split <;> rfl

/-- Setting a bit looks at a byte inside the bitmap block and shifts by less than eight. -/
theorem assign_of (address : Nat) (value : Bool) :
    (assign layout address value : Changing σ Bool) = .of (Bitmap.assign layout address value) := by
  refine Changing.bind_of (Changing.check_of (locate_of regular address)) fun position hlocate => ?_
  obtain ⟨-, hlocate⟩ := hlocate.of_ask
  obtain ⟨-, hbyte, hbit⟩ := locate_bounds regular hlocate
  refine Changing.bind_of (Changing.ask_of fun _ => rfl) fun block hread => ?_
  obtain ⟨_, hread⟩ := hread.of_ask
  rw [byteAt_eq (Store.size_read hread ▸ hbyte), shift_eq hbit, Changing.check_ok_bind,
    Changing.check_ok_bind]
  exact Changing.bind_of rfl fun _ _ => rfl

/-- **The search for a clear bit** stays inside the bitmap, by induction on the blocks that are
left. -/
theorem nextFreeFrom_of (store : σ) {i left : Nat} (h : i + left ≤ layout.bitmapBlocks) :
    nextFreeFrom layout store i left = .of (Bitmap.nextFreeFrom layout store i left) := by
  induction left generalizing i with
  | zero => rfl
  | succ left ih =>
    have hbits := regular.bitmapBits_lt
    have hdata := regular.data_eq
    have haddress := regular.dataAddress_lt
    have hspan : (i + 1) * layout.blockSize ≤ layout.bitmapBlocks * layout.blockSize :=
      Nat.mul_le_mul_right _ (by omega)
    have hfront : (i + 1) * 8 * layout.blockSize ≤ layout.bitmapBits :=
      Nat.mul_le_mul_right _ (by omega)
    have hsplit : (i + 1) * 8 * layout.blockSize
        = i * 8 * layout.blockSize + 8 * layout.blockSize := by ring
    have hcount := regular.bitmapBits_eq
    rw [Nat.succ_mul] at hspan
    rw [nextFreeFrom, Bitmap.nextFreeFrom]
    simp (disch := omega) only [mul_eq, add_eq, Checked.ok_bind]
    refine Checked.bind_of rfl fun block hread => ?_
    rcases Bitmap.firstClear?_spec block 0 with ⟨k, hk, -, hlt, -⟩ | ⟨hnone, -⟩
    · rw [Store.size_read hread] at hlt
      -- each bit of the bitmap has a block in the data region, so no sum is larger than its end
      have hinside : i * 8 * layout.blockSize + k < layout.bitmapBits := by omega
      have hroom := regular.dataBlock_end hinside
      have hend := regular.endAddress_lt
      rw [Layout.dataBlock] at hroom
      have hk8 : k / 8 * 8 + k % 8 = k := Nat.div_add_mod' k 8
      have hbytes := Nat.le_mul_of_pos_right (i * 8) regular.blockSize_pos
      rw [hk]
      simp (disch := omega) only [mul_eq, add_eq, Checked.ok_bind, Nat.add_assoc, hk8,
        endAddress_eq regular]
      split <;> rfl
    · rw [hnone]
      exact ih (by omega)

theorem nextFree_of (store : σ) : nextFree layout store = .of (Bitmap.nextFree layout store) := by
  rw [nextFree, bitmapBlocks_eq regular, Checked.ok_bind]
  exact nextFreeFrom_of regular store (by omega)

/-- **Taking a block** does not crash: the address comes from the search, so it has a bit. -/
theorem acquire_of : (acquire layout : Changing σ Nat) = .of (Block.acquire layout) := by
  have hcounter : layout.superblockAddress + Superblock.allocCountOffset < 2 ^ 64 := by
    have := regular.spare_end
    have := regular.bitmap_lt_data
    have := regular.dataAddress_lt
    rw [Superblock.allocCountOffset]
    omega
  refine Changing.bind_of (Changing.ask_of fun store => nextFree_of regular store)
    fun address _ => ?_
  refine Changing.bind_of (assign_of regular address true) fun wasAllocated _ => ?_
  refine Changing.bind_of rfl fun _ _ => Changing.bind_of ?_ fun _ _ => rfl
  rw [acquire.countAcquired, Block.countAcquired]
  split
  · rfl
  · rw [add_eq hcounter, Changing.check_ok_bind]
    exact Changing.bind_of (Changing.ask_of fun _ => rfl) fun count _ => rfl

end

/-- The first free block is in the data region. -/
theorem lt_end_of_nextFreeFrom {layout : Layout} {store : σ} {i left address : Nat}
    (h : Bitmap.nextFreeFrom layout store i left = .ok address) :
    address < layout.endAddress := by
  induction left generalizing i with
  | zero => cases h
  | succ left ih =>
    rw [Bitmap.nextFreeFrom] at h
    simp only [bind, Except.bind] at h
    split at h
    · cases h
    split at h
    · exact ih h
    split at h
    · cases h
    · obtain rfl := Except.ok.inj h
      omega

/-- A block that is taken is in front of the end of the volume. -/
theorem lt_end_of_acquire {layout : Layout} {address : Nat}
    (h : (Block.acquire layout : Edit σ Nat).Answers address) : address < layout.endAddress := by
  obtain ⟨a, hfree, h⟩ := h.of_bind
  obtain ⟨_, -, h⟩ := h.of_bind
  obtain ⟨_, -, h⟩ := h.of_bind
  obtain ⟨_, -, h⟩ := h.of_bind
  obtain ⟨store, hfree⟩ := hfree.of_ask
  obtain rfl := h.of_pure
  exact lt_end_of_nextFreeFrom hfree

end Words

end ChainFs
