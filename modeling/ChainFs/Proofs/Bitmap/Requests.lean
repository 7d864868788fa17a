import ChainFs.Proofs.Bitmap
import Mathlib.Data.Finset.Max
import Mathlib.Data.Finset.Prod
import Mathlib.Data.Set.Function

/-!
# The bitmap answers like a set

Whatever is asked of the bitmap, and in whatever order, it answers like a set of blocks to which
blocks are added and from which they are taken away.

The set that answers is a `Finset` of addresses, and it knows its own failures: an address that is
no covered block is refused, and once all covered blocks are in it there is no free one. One request
is compared with one step of the set by a case for each kind of request, and a series of them by
induction; the sets before and after tell which bits differ, one for each block that came or went.

* `Bitmap.place_bijOn` — each covered block has a bit of its own, and each bit has its block;
* `Bitmap.Request` — what is asked of the bitmap, `Bitmap.Request.onSet` — how a set answers;
* `Bitmap.Request.run_ends` — one request to the bitmap is one request to the set;
* `Bitmap.runAll_onSets` — so is every series of requests, and nothing else on the volume changes.
-/

namespace ChainFs

open Store

variable {layout : Layout} {IsSize : Nat → Prop} {m m' : Content}

/-- The covered blocks are those at the block boundaries from the first data block on, as many as
the bitmap has bits. -/
theorem Layout.Arranged.mem_covered_iff (regular : layout.Arranged IsSize) {a : Nat} :
    a ∈ layout.covered ↔ a % layout.blockSize = 0 ∧ layout.dataAddress ≤ a ∧
      a < layout.dataAddress + 8 * layout.blockSize ^ 2 * layout.bitmapBlocks := by
  have hbits : 8 * layout.blockSize ^ 2 * layout.bitmapBlocks
      = layout.bitmapBits * layout.blockSize := by
    rw [bitmapBits]
    ring
  rw [hbits]
  constructor
  · intro ha
    refine ⟨regular.mod_of_mem ha, Regular.data_le_of_mem ha, ?_⟩
    obtain ⟨i, hi, rfl⟩ := Regular.mem_covered.mp ha
    exact Nat.add_lt_add_left (Nat.mul_lt_mul_of_pos_right hi regular.blockSize_pos) _
  · rintro ⟨hmod, hdata, hlt⟩
    have hbase := Nat.dvd_of_mod_eq_zero (regular.mod_of_mem regular.data_mem_covered)
    obtain ⟨i, hi⟩ := Nat.dvd_sub (Nat.dvd_of_mod_eq_zero hmod) hbase
    rw [Nat.mul_comm] at hi
    have hi' : i * layout.blockSize < layout.bitmapBits * layout.blockSize := by omega
    refine Regular.mem_covered.mpr ⟨i, Nat.lt_of_mul_lt_mul_right hi', ?_⟩
    rw [dataBlock]
    omega

namespace Bitmap

/-! ## Blocks and bits -/

/-- The byte that a bit is in and its place there. -/
def Position.place (position : Position) : Nat × Nat :=
  (position.block + position.byte, position.bit)

/-- Where the bit of the block at an address is, if there is one. -/
def place (layout : Layout) (address : Nat) : Except Error (Nat × Nat) :=
  (locate layout address).map Position.place

/-- All the bits of the bitmap. -/
def bits (layout : Layout) : Finset (Nat × Nat) :=
  Finset.Ico layout.bitmapAddress layout.dataAddress ×ˢ Finset.range 8

theorem place_dataBlock (regular : layout.Arranged IsSize) {i : Nat} (hi : i < layout.bitmapBits) :
    place layout (layout.dataBlock i) = .ok (layout.bitmapAddress + i / 8, i % 8) := by
  obtain ⟨position, hlocate, hbyte, -, -, -, hbit⟩ := locate_eq regular hi
  rw [place, hlocate, ← hbyte, ← hbit]
  rfl

/-- The bits of the bitmap are numbered. -/
theorem mem_bits_iff (regular : layout.Arranged IsSize) {x k : Nat} :
    (x, k) ∈ bits layout ↔
      ∃ i < layout.bitmapBits, layout.bitmapAddress + i / 8 = x ∧ i % 8 = k := by
  have hbits := regular.bitmapBits_eq
  rw [bits, Finset.mem_product, Finset.mem_Ico, Finset.mem_range]
  constructor
  · rintro ⟨hx, hk⟩
    exact ⟨8 * (x - layout.bitmapAddress) + k, by omega, by omega, by omega⟩
  · rintro ⟨i, hi, rfl, rfl⟩
    exact ⟨by omega, Nat.mod_lt _ (by decide)⟩

/-- Each covered block has a bit of its own, and each bit of the bitmap has its block. -/
theorem place_bijOn (regular : layout.Arranged IsSize) :
    Set.BijOn (place layout) layout.covered (Except.ok '' (bits layout : Set (Nat × Nat))) := by
  refine ⟨?_, ?_, ?_⟩
  · intro a ha
    obtain ⟨i, hi, rfl⟩ := Layout.Regular.mem_covered.mp ha
    rw [place_dataBlock regular hi]
    exact ⟨_, (mem_bits_iff regular).mpr ⟨i, hi, rfl, rfl⟩, rfl⟩
  · intro a ha b hb hplace
    obtain ⟨i, hi, rfl⟩ := Layout.Regular.mem_covered.mp ha
    obtain ⟨j, hj, rfl⟩ := Layout.Regular.mem_covered.mp hb
    rw [place_dataBlock regular hi, place_dataBlock regular hj, Except.ok.injEq,
      Prod.mk.injEq] at hplace
    have hij : i = j := by omega
    rw [hij]
  · rintro _ ⟨⟨x, k⟩, hbit, rfl⟩
    obtain ⟨i, hi, rfl, rfl⟩ := (mem_bits_iff regular).mp hbit
    exact ⟨layout.dataBlock i, Layout.Regular.mem_covered.mpr ⟨i, hi, rfl⟩,
      place_dataBlock regular hi⟩

/-- The marked blocks are those whose bit is found and is set. -/
theorem mem_marked_iff (regular : layout.Arranged IsSize) {a : Nat} :
    a ∈ marked layout m ↔ ∃ x k, place layout a = .ok (x, k) ∧ hasBit (m x) k = true := by
  by_cases ha : a ∈ layout.covered
  · obtain ⟨i, hi, rfl⟩ := Layout.Regular.mem_covered.mp ha
    rw [dataBlock_mem_marked regular hi, place_dataBlock regular hi, bit]
    constructor
    · exact fun hbit => ⟨_, _, rfl, hbit⟩
    · rintro ⟨x, k, hplace, hbit⟩
      cases hplace
      exact hbit
  · refine iff_of_false (fun hmarked => ha (marked_subset_covered hmarked)) ?_
    rintro ⟨x, k, hplace, -⟩
    rw [place, locate_error regular ha] at hplace
    cases hplace

/-! ## Requests -/

/-- What is asked of the bitmap. -/
inductive Request where
  | isAllocated (address : Nat)
  | allocate (address : Nat)
  | free (address : Nat)
  | nextFree
  deriving DecidableEq, Repr

/-- What the bitmap answers: whether a block is, or was, in use, or where the first free one is. -/
inductive Answer where
  | inUse (value : Bool)
  | block (address : Nat)
  deriving DecidableEq, Repr

/-- The least block that is not in a set. -/
def leastFree (covered set : Finset Nat) : Except Error Nat :=
  if h : (covered \ set).Nonempty then .ok ((covered \ set).min' h) else .error .outOfSpace

namespace Request

/-- A request to the bitmap of a volume. -/
def run {σ : Type} [Store σ] (layout : Layout) : Request → Edit σ Answer
  | isAllocated a => .inUse <$> Edit.ask (Bitmap.isAllocated layout · a)
  | allocate a => .inUse <$> Bitmap.allocate layout a
  | free a => .inUse <$> Bitmap.free layout a
  | nextFree => .block <$> Edit.ask (Bitmap.nextFree layout)

/-- How a set answers to which only covered blocks can be added. -/
def onSet (covered set : Finset Nat) : Request → Except Error Answer × Finset Nat
  | isAllocated a =>
    if a ∈ covered then (.ok (.inUse (a ∈ set)), set) else (.error (.invalidAddress a), set)
  | allocate a =>
    if a ∈ covered then (.ok (.inUse (a ∈ set)), insert a set)
    else (.error (.invalidAddress a), set)
  | free a =>
    if a ∈ covered then (.ok (.inUse (a ∈ set)), set.erase a)
    else (.error (.invalidAddress a), set)
  | nextFree => ((leastFree covered set).map .block, set)

end Request

/-- The answers to a series of requests, and the store they leave. A failure ends nothing. -/
def runAll {σ : Type} [Store σ] (layout : Layout) :
    List Request → σ → List (Except Error Answer) × σ
  | [], store => ([], store)
  | request :: requests, store =>
    let (answer, after) := (request.run layout).outcome store
    let (answers, last) := runAll layout requests after
    (answer :: answers, last)

/-- The answers of a set to a series of requests, and the set they leave. -/
def onSets (covered : Finset Nat) :
    List Request → Finset Nat → List (Except Error Answer) × Finset Nat
  | [], set => ([], set)
  | request :: requests, set =>
    let (answer, after) := request.onSet covered set
    let (answers, last) := onSets covered requests after
    (answer :: answers, last)

/-! ## One request -/

section Step

variable {σ : Type} [Store σ] [Faithful σ] {size : Nat}

/-- Where all covered blocks are in a set, and only there, none is left. -/
theorem leastFree_eq_error_iff {covered set : Finset Nat} (hset : set ⊆ covered) :
    leastFree covered set = .error .outOfSpace ↔ set = covered := by
  unfold leastFree
  split
  · rename_i hfree
    refine iff_of_false (fun h => by cases h) ?_
    rintro rfl
    simp at hfree
  · rename_i hfull
    rw [Finset.not_nonempty_iff_eq_empty, Finset.sdiff_eq_empty_iff_subset] at hfull
    exact iff_of_true rfl (Finset.Subset.antisymm hset hfull)

/-- The bitmap finds the least block that is not marked. -/
theorem nextFree_eq (regular : layout.Arranged IsSize) {store : σ}
    (hsize : layout.endAddress ≤ Store.size store) :
    nextFree layout store = leastFree layout.covered (marked layout (content store)) := by
  rcases nextFree_spec regular hsize with ⟨a, ha, hfree, hleast, hfound⟩ | ⟨hfull, hnone⟩
  · have hmem : a ∈ layout.covered \ marked layout (content store) :=
      Finset.mem_sdiff.mpr ⟨ha, hfree⟩
    have hfirst : ∀ b ∈ layout.covered \ marked layout (content store), a ≤ b := by
      intro b hb
      obtain ⟨hb, hbfree⟩ := Finset.mem_sdiff.mp hb
      exact Nat.le_of_not_lt fun hlt => hbfree (hleast b hb hlt)
    have hsome : (layout.covered \ marked layout (content store)).Nonempty := ⟨a, hmem⟩
    rw [hfound, leastFree, dif_pos hsome]
    exact congrArg Except.ok
      (Nat.le_antisymm (Finset.le_min' _ _ _ hfirst) (Finset.min'_le _ _ hmem))
  · rw [hnone, (leastFree_eq_error_iff marked_subset_covered).mpr hfull]

/-- Setting and clearing a bit: the answer of the set, and the set afterwards. -/
theorem assign_ends_onSet (regular : layout.Arranged IsSize) (hsize : layout.endAddress ≤ size)
    (a : Nat) (value : Bool) :
    (Answer.inUse <$> assign layout a value : Edit σ Answer).Ends size m fun r m' =>
      (∀ x, x < layout.bitmapAddress ∨ layout.dataAddress ≤ x → m' x = m x) ∧
      ((r, marked layout m') = (if a ∈ layout.covered then
          (.ok (.inUse (a ∈ marked layout m)),
            if value then insert a (marked layout m) else (marked layout m).erase a)
        else (.error (.invalidAddress a), marked layout m)) ∨
      ∃ e, r = .error e ∧ Fault σ e ∧ m' = m) := by
  by_cases ha : a ∈ layout.covered
  · rw [if_pos ha]
    refine .map ((assign_ends regular hsize ha value).mono ?_)
    rintro r m' (⟨rfl, rfl⟩ | ⟨e, rfl, he, rfl⟩)
    · refine ⟨fun x hx => assigned_outside regular ha value hx, .inl ?_⟩
      rw [marked_assigned regular ha]
      rfl
    · exact ⟨fun x _ => rfl, .inr ⟨e, rfl, he, rfl⟩⟩
  · rw [if_neg ha]
    refine .map ((assign_ends_of_not_mem regular ha value).mono ?_)
    rintro r m' ⟨rfl, rfl⟩
    exact ⟨fun x _ => rfl, .inl rfl⟩

/-- A request to the bitmap is a request to the set of the marked blocks, and changes no byte
outside the bitmap. A write that fails changes nothing at all. -/
theorem Request.run_ends (regular : layout.Arranged IsSize) (hsize : layout.endAddress ≤ size)
    (request : Request) :
    (request.run layout : Edit σ Answer).Ends size m fun r m' =>
      (∀ x, x < layout.bitmapAddress ∨ layout.dataAddress ≤ x → m' x = m x) ∧
      ((r, marked layout m') = request.onSet layout.covered (marked layout m) ∨
      ∃ e, r = .error e ∧ Fault σ e ∧ m' = m) := by
  cases request with
  | isAllocated a =>
    refine .map (.ask ?_)
    rintro store rfl rfl
    refine ⟨fun x _ => rfl, .inl ?_⟩
    by_cases ha : a ∈ layout.covered
    · rw [isAllocated_eq regular hsize ha, onSet, if_pos ha]
      rfl
    · rw [Bitmap.isAllocated, locate_error regular ha, onSet, if_neg ha]
      rfl
  | allocate a => exact assign_ends_onSet regular hsize a true
  | free a => exact assign_ends_onSet regular hsize a false
  | nextFree =>
    refine .map (.ask ?_)
    rintro store rfl rfl
    refine ⟨fun x _ => rfl, .inl ?_⟩
    rw [nextFree_eq regular hsize, onSet]

/-! ## Series of requests -/

/-- Where bits differ before and after requests to the bitmap: in the place of each block that is
marked before and not afterwards, or afterwards and not before. -/
theorem hasBit_ne_iff (regular : layout.Arranged IsSize)
    (hsame : ∀ x, x < layout.bitmapAddress ∨ layout.dataAddress ≤ x → m' x = m x) {x k : Nat}
    (hk : k < 8) :
    hasBit (m' x) k ≠ hasBit (m x) k ↔
      ∃ a, place layout a = .ok (x, k) ∧ ¬ (a ∈ marked layout m' ↔ a ∈ marked layout m) := by
  by_cases hx : (x, k) ∈ bits layout
  · obtain ⟨i, hi, rfl, rfl⟩ := (mem_bits_iff regular).mp hx
    have hplace := place_dataBlock regular hi
    have hbits : hasBit (m' (layout.bitmapAddress + i / 8)) (i % 8)
          ≠ hasBit (m (layout.bitmapAddress + i / 8)) (i % 8) ↔
        ¬ (layout.dataBlock i ∈ marked layout m' ↔ layout.dataBlock i ∈ marked layout m) := by
      rw [dataBlock_mem_marked regular hi, dataBlock_mem_marked regular hi, bit, bit, ne_eq,
        Bool.eq_iff_iff]
    rw [hbits]
    constructor
    · exact fun hdiffer => ⟨_, hplace, hdiffer⟩
    · rintro ⟨a, ha, hdiffer⟩
      -- the bit is that of one block only
      by_cases hcovered : a ∈ layout.covered
      · rwa [(place_bijOn regular).injOn hcovered
          (Layout.Regular.mem_covered.mpr ⟨i, hi, rfl⟩) (ha.trans hplace.symm)] at hdiffer
      · rw [place, locate_error regular hcovered] at ha
        cases ha
  · have hbits := regular.bitmapBits_eq
    have houtside : x < layout.bitmapAddress ∨ layout.dataAddress ≤ x := by
      rw [bits, Finset.mem_product, Finset.mem_Ico, Finset.mem_range] at hx
      omega
    refine iff_of_false (fun hdiffer => hdiffer (by rw [hsame x houtside])) ?_
    rintro ⟨a, ha, hdiffer⟩
    refine hdiffer (iff_of_false ?_ ?_) <;> intro hmarked <;>
    · obtain ⟨y, hy, heq⟩ := (place_bijOn regular).mapsTo (marked_subset_covered hmarked)
      rw [ha, Except.ok.injEq] at heq
      exact hx (heq ▸ hy)

end Step

section Series

variable {σ : Type} [Store σ] [Reliable σ]

/-- A series of requests to the bitmap is one to the set of the marked blocks, and changes no byte
outside the bitmap. -/
theorem runAll_onSets (regular : layout.Arranged IsSize) (requests : List Request) {store : σ}
    (hsize : layout.endAddress ≤ Store.size store) :
    ((runAll layout requests store).1, marked layout (content (runAll layout requests store).2))
        = onSets layout.covered requests (marked layout (content store)) ∧
      Store.size (runAll layout requests store).2 = Store.size store ∧
      ∀ x, x < layout.bitmapAddress ∨ layout.dataAddress ≤ x →
        content (runAll layout requests store).2 x = content store x := by
  induction requests generalizing store with
  | nil => exact ⟨rfl, rfl, fun _ _ => rfl⟩
  | cons request requests ih =>
    obtain ⟨hkeeps, hsame, hset | ⟨e, -, he, -⟩⟩ :=
      (request.run_ends regular hsize (m := content store)).outcome rfl rfl
    · obtain ⟨hsets, hkeeps', hsame'⟩ := ih (hsize.trans_eq hkeeps.symm)
      refine ⟨?_, hkeeps'.trans hkeeps, fun x hx => (hsame' x hx).trans (hsame x hx)⟩
      rw [onSets, ← hset]
      dsimp only
      rw [← hsets]
      rfl
    · exact absurd he (Reliable.not_fault e)

/-- **The bitmap is a set of blocks.** Its bits and the blocks at the block boundaries of the first
part of the data region belong to each other one by one, and no other address has a bit. A search
never comes to a block outside the volume, and fails only where all blocks are marked. Whatever is
asked of the bitmap, it answers like the set of the marked blocks, and the bits that change are
those of the blocks that the set gained or lost. -/
theorem runAll_refines_set {superblock : Superblock} {configured : UInt32}
    (hlayout : Layout.ofSuperblock superblock configured = .ok layout) (store : σ)
    (hsize : layout.endAddress ≤ Store.size store) :
    (∀ a, a ∈ layout.covered ↔ a % layout.blockSize = 0 ∧ layout.dataAddress ≤ a ∧
      a < layout.dataAddress + 8 * layout.blockSize ^ 2 * layout.bitmapBlocks) ∧
    Set.BijOn (place layout) layout.covered (Except.ok '' (bits layout : Set (Nat × Nat))) ∧
    (∀ a ∉ layout.covered, locate layout a = .error (.invalidAddress a)) ∧
    (∀ a, a ∈ marked layout (content store) ↔
      ∃ x k, place layout a = .ok (x, k) ∧ hasBit (content store x) k = true) ∧
    (∀ i < layout.bitmapBlocks, ∀ k < 8 * layout.blockSize, layout.dataAddress +
      (i * 8 * layout.blockSize + k) * layout.blockSize < layout.endAddress) ∧
    (nextFree layout store = .error .outOfSpace ↔
      marked layout (content store) = layout.covered) ∧
    ∀ requests, ∃ answers after, runAll layout requests store = (answers, after) ∧
      (answers, marked layout (content after))
        = onSets layout.covered requests (marked layout (content store)) ∧
      Store.size after = Store.size store ∧
      ∀ x, ∀ k < 8, hasBit (content after x) k ≠ hasBit (content store x) k ↔
        ∃ a, place layout a = .ok (x, k) ∧
          ¬ (a ∈ marked layout (content after) ↔ a ∈ marked layout (content store)) := by
  have regular : layout.Arranged fun _ => True :=
    Layout.arranged_of_ofSuperblock (Layout.pos_of_ofSuperblock hlayout) trivial hlayout
  refine ⟨fun a => regular.mem_covered_iff, place_bijOn regular,
    fun a ha => locate_error regular ha, fun a => mem_marked_iff regular, ?_, ?_, ?_⟩
  · intro i hi k hk
    have hrow : i * 8 * layout.blockSize + k < layout.bitmapBits := by
      have hnext : (i + 1) * 8 * layout.blockSize ≤ layout.bitmapBits :=
        Nat.mul_le_mul_right _ (Nat.mul_le_mul_right _ hi)
      rw [Nat.add_mul, Nat.add_mul, Nat.one_mul] at hnext
      omega
    have hend := regular.dataBlock_end hrow
    have hpos := regular.blockSize_pos
    rw [Layout.dataBlock] at hend
    omega
  · rw [nextFree_eq regular hsize]
    exact leastFree_eq_error_iff marked_subset_covered
  · intro requests
    obtain ⟨hsets, hkeeps, hsame⟩ := runAll_onSets regular requests hsize
    exact ⟨_, _, rfl, hsets, hkeeps, fun x k hk => hasBit_ne_iff regular hsame hk⟩

end Series

/-! ## Blocks of two bytes -/

/-- A layout with blocks of two bytes. Its bitmap speaks of sixteen blocks, which are all. -/
def narrow : Layout where
  blockSize := 2
  blockCount := 4115
  superblockAddress := 8192
  bitmapAddress := 8196
  dataAddress := 8198

/-- A volume that is zero but for its bitmap, which marks the first nine blocks. -/
def narrowVolume : Memory :=
  ⟨Bytes.overlay (Bytes.zeros 8230) 8196 ⟨#[0xff, 0x01]⟩⟩

/-- The tenth block is found, taken and passed over, until the second one is given back. An address
inside a block is refused. -/
theorem runAll_refines_set_narrow :
    Layout.ofSuperblock ⟨2, 4115, 0⟩ 2 = .ok narrow ∧
      narrow.endAddress ≤ Store.size narrowVolume ∧
      ∃ after, runAll narrow [.nextFree, .allocate 8216, .isAllocated 8216, .nextFree, .free 8200,
          .nextFree, .allocate 8199] narrowVolume
        = ([.ok (.block 8216), .ok (.inUse false), .ok (.inUse true), .ok (.block 8218),
          .ok (.inUse true), .ok (.block 8200), .error (.invalidAddress 8199)], after) := by
  have hlayout : Layout.ofSuperblock ⟨2, 4115, 0⟩ 2 = .ok narrow := by decide
  have hzeros : 8196 + (⟨#[0xff, 0x01]⟩ : ByteArray).size ≤ (Bytes.zeros 8230).size := by
    rw [Bytes.size_zeros]
    decide
  have hsize : narrow.endAddress ≤ Store.size narrowVolume := by
    have hvolume : Store.size narrowVolume
        = (Bytes.overlay (Bytes.zeros 8230) 8196 ⟨#[0xff, 0x01]⟩).size := rfl
    rw [hvolume, Bytes.size_overlay hzeros, Bytes.size_zeros]
    decide
  have hcontent : content narrowVolume = Content.put (fun _ => 0) 8196 ⟨#[0xff, 0x01]⟩ := by
    funext i
    have hget : content narrowVolume i = Bytes.get narrowVolume.bytes i := rfl
    rw [hget, narrowVolume, Bytes.get_overlay _ (by omega), Bytes.get_zeros]
    rfl
  obtain ⟨-, -, -, -, -, -, hruns⟩ := runAll_refines_set hlayout narrowVolume hsize
  obtain ⟨answers, after, hrun, hsets, -⟩ := hruns [.nextFree, .allocate 8216, .isAllocated 8216,
    .nextFree, .free 8200, .nextFree, .allocate 8199]
  rw [hcontent] at hsets
  refine ⟨hlayout, hsize, after, hrun.trans (congrArg (·, after) ?_)⟩
  exact (congrArg Prod.fst hsets).trans (by decide +kernel)

end Bitmap

end ChainFs
