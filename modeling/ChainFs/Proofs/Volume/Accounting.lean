import ChainFs.Proofs.Volume.Runs

/-!
# The count of blocks in use

The count is exact for a reason that has nothing to do with trees: a block is counted exactly if its
bit changes, and the answer of the bitmap says whether it did. So the count stays exact also when
blocks are taken and returned by hand, with addresses that are no block's or are in use by a file.
Such a run damages the volume, but it counts right.

* `Block.Op` — taking and returning blocks by hand, below the calls of a volume;
* `Block.CountsExactly` — the count of the superblock is the number of set bits, and says how many
  blocks can still be taken;
* `Volume.Tallied.acquireTimes_eq` — as many blocks can be taken as the bitmap has clear bits;
* `Volume.allocCount_exact` — after any run on a new volume the count is exact.
-/

namespace ChainFs

open Store Bitmap

namespace Block

variable {σ : Type} [Store σ]

/-- Taking a block, or returning the one at an address. -/
inductive Op
  | acquire
  | release (address : Nat)
  deriving DecidableEq

/-- Takes and returns blocks in order, whether or not the steps before succeeded. -/
def runAll (layout : Layout) : List Op → σ → σ
  | [], store => store
  | .acquire :: rest, store => runAll layout rest ((acquire layout).outcome store).2
  | .release address :: rest, store => runAll layout rest ((release layout address).outcome store).2

/-- Takes a block a number of times and tells what came of it each time. -/
def acquireTimes (layout : Layout) : Nat → σ → List (Except Error Nat)
  | 0, _ => []
  | n + 1, store =>
    let (answer, after) := (acquire layout).outcome store
    answer :: acquireTimes layout n after

/-- What the superblock counts is what the bitmap says, and it says how many blocks are left to be
taken: so many attempts succeed, each with a block of its own, and all further ones fail. -/
def CountsExactly [Faithful σ] (layout : Layout) (store : σ) : Prop :=
  ∃ usage, Volume.usage layout store = .ok usage ∧
    usage.allocCount = population layout (content store) ∧
    usage.allocCount ≤ 8 * layout.blockSize * layout.bitmapBlocks ∧
    8 * layout.blockSize * layout.bitmapBlocks ≤ layout.blockCount ∧
    usage.freeBlocks = 8 * layout.blockSize * layout.bitmapBlocks - usage.allocCount +
      (layout.blockCount - 8 * layout.blockSize * layout.bitmapBlocks) ∧
    ∃ blocks : List Nat,
      blocks.length = 8 * layout.blockSize * layout.bitmapBlocks - usage.allocCount ∧
      blocks.Nodup ∧ (∀ a ∈ blocks, isAllocated layout store a = .ok false) ∧
      ∀ extra, acquireTimes layout (blocks.length + extra) store =
        blocks.map .ok ++ List.replicate extra (.error .outOfSpace)

end Block

namespace Volume

variable {τ : Type} [Store τ] [Reliable τ] {layout : Layout} {blockSize : UInt32} {size : Nat}
  {m : Content} {store : τ}

/-! ## The count stays exact -/

/-- Taking a block keeps the count exact. -/
theorem Tallied.acquire_ends (tallied : Tallied layout blockSize size m) :
    (Block.acquire layout : Edit τ Nat).Ends size m fun r m' =>
      Tallied layout blockSize size m' ∧
      ((∃ a ∈ layout.covered, r = .ok a ∧ a ∉ marked layout m ∧
          marked layout m' = insert a (marked layout m)) ∨
        r = .error .outOfSpace ∧ marked layout m = layout.covered ∧ m' = m) := by
  refine (Block.acquire_ends tallied.regular tallied.fits).mono ?_
  rintro r m' (⟨a, rfl, growth, -⟩ | ⟨rfl, hfull, rfl⟩ | ⟨e, spare, -, he, -⟩)
  · refine ⟨tallied.of_growth growth, .inl ⟨a, growth.taken_covered a (by simp), rfl,
      growth.fresh a (by simp), ?_⟩⟩
    rw [growth.marked_eq]
    ext b
    simp
  · exact ⟨tallied, .inr ⟨rfl, hfull, rfl⟩⟩
  · exact absurd he (Reliable.not_fault e)

/-- So does returning one, be it in use or not, or no block at all. -/
theorem Tallied.release_ends (tallied : Tallied layout blockSize size m) (a : Nat) :
    (Block.release layout a : Edit τ Unit).Ends size m fun _ m' =>
      Tallied layout blockSize size m' := by
  obtain ⟨regular, fits, sealed, counted⟩ := id tallied
  by_cases ha : a ∈ layout.covered
  · refine (Block.release_ends regular fits ha).mono ?_
    rintro r m' (⟨-, hmarked, hcounter, hsame⟩ | ⟨e, -, he⟩)
    · refine ⟨regular, fits, sealed.congr regular fun x _ hx => hsame x ?_, ?_⟩
      · have hend := Elsewhere.counter_end regular
        exact .of_lt regular (by simp) (by omega) (.inl hx)
      · rw [hmarked, hcounter, counted]
        split
        · rename_i hmem
          rw [Finset.card_erase_of_mem hmem, Block.decrement]
        · rename_i hmem
          rw [Finset.erase_eq_of_notMem hmem]
    · exact absurd he (Reliable.not_fault e)
  · refine (Block.release_ends_of_not_mem regular ha).mono ?_
    rintro r m' ⟨-, rfl⟩
    exact tallied

theorem Tallied.runAll (ops : List Block.Op)
    (tallied : Tallied layout blockSize size (content store)) (hsize : Store.size store = size) :
    Store.size (Block.runAll layout ops store) = size ∧
      Tallied layout blockSize size (content (Block.runAll layout ops store)) := by
  induction ops generalizing store with
  | nil => exact ⟨hsize, tallied⟩
  | cons op rest ih =>
    cases op with
    | acquire =>
      obtain ⟨hsize', tallied', -⟩ := tallied.acquire_ends.outcome hsize rfl
      exact ih tallied' hsize'
    | release a =>
      obtain ⟨hsize', tallied'⟩ := (tallied.release_ends a).outcome hsize rfl
      exact ih tallied' hsize'

/-! ## What an exact count says -/

/-- Where all bits are set no block can be taken. -/
theorem Tallied.acquireTimes_full (tallied : Tallied layout blockSize size (content store))
    (hsize : Store.size store = size) (hfull : marked layout (content store) = layout.covered)
    (n : Nat) :
    Block.acquireTimes layout n store = List.replicate n (.error .outOfSpace) := by
  induction n generalizing store with
  | zero => rfl
  | succ n ih =>
    obtain ⟨hsize', tallied', ⟨a, ha, -, hfree, -⟩ | ⟨hanswer, -, hsame⟩⟩ :=
      tallied.acquire_ends.outcome hsize rfl
    · exact absurd (hfull ▸ ha) hfree
    · rw [Block.acquireTimes, List.replicate_succ]
      exact congrArg₂ List.cons hanswer (ih tallied' hsize' (hsame ▸ hfull))

/-- As many blocks can be taken as have a clear bit, and not one more. -/
theorem Tallied.acquireTimes_eq (tallied : Tallied layout blockSize size (content store))
    (hsize : Store.size store = size) :
    ∃ blocks : List Nat,
      blocks.length + (marked layout (content store)).card = layout.bitmapBits ∧ blocks.Nodup ∧
      (∀ a ∈ blocks, a ∈ layout.covered ∧ a ∉ marked layout (content store)) ∧
      ∀ extra, Block.acquireTimes layout (blocks.length + extra) store =
        blocks.map .ok ++ List.replicate extra (.error .outOfSpace) := by
  have hcovered := tallied.regular.card_covered
  have hsub : marked layout (content store) ⊆ layout.covered := marked_subset_covered
  -- the induction is on the number of clear bits
  obtain ⟨clear, hclear⟩ := Nat.exists_eq_add_of_le' (card_marked_le (m := content store)
    tallied.regular)
  induction clear generalizing store with
  | zero =>
    have hfull : marked layout (content store) = layout.covered :=
      Finset.eq_of_subset_of_card_le hsub (by omega)
    refine ⟨[], by simp; omega, .nil, by simp, fun extra => ?_⟩
    rw [List.length_nil, Nat.zero_add, tallied.acquireTimes_full hsize hfull]
    rfl
  | succ clear ih =>
    obtain ⟨hsize', tallied', ⟨a, ha, hanswer, hfree, hmarked⟩ | ⟨-, hfull, -⟩⟩ :=
      tallied.acquire_ends.outcome hsize rfl
    · have hcard := congrArg Finset.card hmarked
      rw [Finset.card_insert_of_notMem hfree] at hcard
      obtain ⟨blocks, hlength, hnodup, hclear', hblocks⟩ :=
        ih tallied' hsize' marked_subset_covered (by omega)
      rw [hmarked] at hclear'
      refine ⟨a :: blocks, ?_, List.nodup_cons.mpr ⟨fun hmem => ?_, hnodup⟩, ?_, fun extra => ?_⟩
      · rw [List.length_cons]
        omega
      · exact (hclear' a hmem).2 (Finset.mem_insert_self a _)
      · intro b hb
        rcases List.mem_cons.mp hb with rfl | hb
        · exact ⟨ha, hfree⟩
        · exact ⟨(hclear' b hb).1, fun hmem => (hclear' b hb).2 (Finset.mem_insert_of_mem hmem)⟩
      · rw [List.length_cons, Nat.add_right_comm, Block.acquireTimes, List.map_cons,
          List.cons_append]
        exact congrArg₂ List.cons hanswer (hblocks extra)
    · rw [hfull] at hclear
      omega

/-- Where the count is exact it says how many blocks can be taken. -/
theorem Tallied.countsExactly (tallied : Tallied layout blockSize size (content store))
    (hsize : Store.size store = size) : Block.CountsExactly layout store := by
  obtain ⟨blocks, hlength, hnodup, hclear, hblocks⟩ := tallied.acquireTimes_eq hsize
  obtain ⟨regular, hfits, sealed, counted⟩ := tallied
  have hbits : 8 * layout.blockSize * layout.bitmapBlocks = layout.bitmapBits := by
    rw [Layout.bitmapBits]
    ring
  have hfit := regular.covered_fit
  have hle := card_marked_le (m := content store) regular
  refine ⟨_, sealed.usage_eq regular (hsize ▸ hfits), ?_⟩
  rw [hbits, counted]
  refine ⟨(population_eq regular).symm, hle, by omega, ?_, blocks, ?_, hnodup, ?_, hblocks⟩
  · rw [Usage.freeBlocks]
    dsimp only
    omega
  · exact Nat.eq_sub_of_add_eq hlength
  · intro a ha
    rw [isAllocated_eq regular (hsize ▸ hfits) (hclear a ha).1, decide_eq_false (hclear a ha).2]

/-- However the calls of a run on a new volume end, and also if blocks are taken and returned by
hand there, the count of the superblock is the number of bits that are set in the bitmap. -/
theorem allocCount_exact {blank formatted : τ}
    (hformat : format blockSize blank = .ok layout formatted) :
    (∀ calls, Block.CountsExactly layout (Call.runAll layout calls formatted).2) ∧
      ∀ ops, Block.CountsExactly layout (Block.runAll layout ops formatted) := by
  refine ⟨fun calls => ?_, fun ops => ?_⟩
  · obtain ⟨hsize, ⟨branches, sound⟩, -⟩ := sound_of_format hformat calls
    exact sound.toTallied.countsExactly hsize
  · obtain ⟨hsize, hformatted⟩ := formatted_of_ok hformat
    obtain ⟨hsize', tallied⟩ := hformatted.sound.toTallied.runAll ops hsize
    exact tallied.countsExactly hsize'

theorem allocCount_on_blank :
    ∃ volume, format 512 (blank 4195840) = .ok smallest volume ∧
      Block.CountsExactly smallest (Call.runAll smallest
        [(5, .makeDirectory "/d"), (6, .createFile "/d/a"), (7, .write "/d/a" 600 [1].toByteArray)]
        volume).2 ∧
      Block.CountsExactly smallest (Block.runAll smallest
        [.acquire, .release 5, .release 2098688, .acquire] volume) := by
  obtain ⟨volume, hformat⟩ := format_blank
  exact ⟨volume, hformat, (allocCount_exact hformat).1 _, (allocCount_exact hformat).2 _⟩

end Volume

end ChainFs
