import ChainFs.Proofs.Chain.Write
import ChainFs.Proofs.Volume.Format

/-!
# Writes as overlays

A write of data at an offset lays the data over the payload of a chain, byte by byte, and takes as
many blocks as that needs, or as many as there are. Nothing else changes.

* `Chain.Touches` — the bytes that a write may change;
* `Chain.Overlay` — what a write has done: the chain, its payload, the bits, the counter, and that
  every other byte is as before;
* `Chain.writeRange_overlays` — a write is such an overlay; by the number of free blocks it takes
  all of the data, or it ends with all blocks in use and the part of the data that fits.

The blocks have to be larger than eight bytes. In smaller ones the counter of the superblock reaches
into the bitmap, and counting a block marks another one: `Chain.writeRange_crowded`.

What is known of a write to an intact chain is turned inside out here: not what the chain holds
afterwards, but which bytes of the volume were written. The bytes of the chain are found in its
payload, and growth accounts for all the others.
-/

namespace ChainFs

/-- Equal numbers have equal bytes. -/
theorem Content.eq_of_number_eq {m m' : Content} {offset width : Nat}
    (h : m'.number offset width = m.number offset width) :
    ∀ i < width, m' (offset + i) = m (offset + i) := by
  induction width with
  | zero => exact fun i hi => absurd hi (Nat.not_lt_zero i)
  | succ width ih =>
    rw [number, number] at h
    have hbyte := (m (offset + width)).toNat_lt
    have hbyte' := (m' (offset + width)).toNat_lt
    -- the last byte is the remainder by 256, and the quotient is the number of the others
    intro i hi
    rcases Nat.lt_succ_iff_lt_or_eq.mp hi with hlt | rfl
    · exact ih (by omega) i hlt
    · exact UInt8.toNat_inj.mp (by omega)

namespace Chain

open Store Bitmap Block

variable {layout : Layout} {IsSize : Nat → Prop} [Layout.Roomy IsSize]
variable {m m' : Content} {chain added : List Nat} {offset : Nat} {data : ByteArray}

/-- How many blocks are free. -/
def freeBlocks (layout : Layout) (m : Content) : Nat :=
  layout.bitmapBits - population layout m

/-- How many blocks a chain lacks for its first `size` bytes. -/
def lacking (layout : Layout) (chain : List Nat) (size : Nat) : Nat :=
  blocksFor layout size - chain.length

/-- The bytes that a write of `length` bytes at `offset` may change when it lets a chain go on with
the blocks `added`. -/
inductive Touches (layout : Layout) (chain added : List Nat) (offset length : Nat) : Nat → Prop
  | bitmap {x : Nat} (hle : layout.bitmapAddress ≤ x) (hlt : x < layout.dataAddress) :
    Touches layout chain added offset length x
  | counter {x : Nat} (hle : counterAddress layout ≤ x) (hlt : x < counterAddress layout + 4) :
    Touches layout chain added offset length x
  /-- Any byte of a new block. -/
  | block {a x : Nat} (ha : a ∈ added) (hx : layout.InBlock a x) :
    Touches layout chain added offset length x
  /-- The link of the last old block, if there is a new one. -/
  | link {a x : Nat} (hadded : added ≠ []) (hlast : chain.getLast? = some a) (hle : a ≤ x)
    (hlt : x < a + Layout.linkSize) : Touches layout chain added offset length x
  /-- The payload that the data are written over. -/
  | payload {k a i : Nat} (ha : chain[k]? = some a) (hi : i < layout.payloadSize)
    (hle : offset ≤ k * layout.payloadSize + i)
    (hlt : k * layout.payloadSize + i < offset + length) :
    Touches layout chain added offset length (a + Layout.linkSize + i)

/-- A chain goes on with the free blocks `added`, and `data` lies over its payload at `offset`. -/
structure Overlay (layout : Layout) (m : Content) (chain added : List Nat) (offset : Nat)
    (data : ByteArray) (m' : Content) : Prop where
  intact : Intact layout m' (chain ++ added)
  payload_eq : payload layout m' (chain ++ added) = (payload layout m chain).put offset data
  free : ∀ a ∈ added, a ∉ marked layout m
  marked_eq : marked layout m' = marked layout m ∪ added.toFinset
  counter_eq : counter layout m' = min (counter layout m + added.length) counterLimit
  same : ∀ x, ¬ Touches layout chain added offset data.size x → m' x = m x

omit [Layout.Roomy IsSize] in
/-- The link of a block stays as it was where another old block comes next, or none at all. -/
theorem same_link (regular : layout.Arranged IsSize) (intact : Intact layout m chain)
    (intact' : Intact layout m' (chain ++ added)) {k a i : Nat} (ha : chain[k]? = some a)
    (hinner : added = [] ∨ chain.getLast? ≠ some a) (hi : i < 4) : m' (a + i) = m (a + i) := by
  have hk := (List.getElem?_eq_some_iff.mp ha).1
  have hnext : (chain ++ added)[k + 1]? = chain[k + 1]? := by
    rcases hinner with rfl | hlast
    · rw [List.append_nil]
    · refine List.getElem?_append_left (Nat.lt_of_le_of_ne hk fun hend => hlast ?_)
      rw [List.getLast?_eq_getElem?, ← hend, Nat.succ_sub_one]
      exact ha
  have htarget : target layout m' a = target layout m a := by
    rw [intact.linked k a ha, intact'.linked k a (by rw [List.getElem?_append_left hk]; exact ha),
      hnext]
  exact Content.eq_of_number_eq (Nat.eq_of_mul_eq_mul_right regular.blockSize_pos htarget) i hi

/-- A write that left no spare block is an overlay: bytes outside of the chain are kept by growth,
links by the chain being as it was, and payload by what the payload is now. -/
theorem Written.overlay (regular : layout.Arranged IsSize) (intact : Intact layout m chain)
    (h : Written layout m chain added [] added.length ((payload layout m chain).put offset data)
      m') : Overlay layout m chain added offset data m' := by
  have hgrowth := h.growth
  rw [List.append_nil] at hgrowth
  refine ⟨h.intact, h.payload_eq, hgrowth.fresh, hgrowth.marked_eq, hgrowth.counter_eq,
    fun x hx => ?_⟩
  have hsum := payloadSize_add regular
  by_cases hold : ∃ a ∈ chain, layout.InBlock a x
  · obtain ⟨a, ha, hle, hlt⟩ := hold
    obtain ⟨k, hk⟩ := List.mem_iff_getElem?.mp ha
    have hlength := (List.getElem?_eq_some_iff.mp hk).1
    -- growth says nothing of old blocks: their links and their payloads are compared on their own
    rcases Nat.lt_or_ge x (a + Layout.linkSize) with hlink | hbehind
    · obtain ⟨i, rfl⟩ := Nat.exists_eq_add_of_le hle
      refine same_link regular intact h.intact hk ?_ (by rw [Layout.linkSize] at hlink; omega)
      by_contra hlast
      rw [not_or, not_not] at hlast
      exact hx (.link hlast.1 hlast.2 hle hlink)
    · obtain ⟨i, rfl⟩ := Nat.exists_eq_add_of_le hbehind
      have hi : i < layout.payloadSize := by omega
      have hpayload := congrFun h.payload_eq (k * layout.payloadSize + i)
      have hoverlay : (payload layout m chain).put offset data (k * layout.payloadSize + i)
          = payload layout m chain (k * layout.payloadSize + i) := by
        refine Content.put_outside _ ?_
        by_contra hinside
        exact hx (.payload hk hi (by omega) (by omega))
      rwa [hoverlay, Chain.payload_eq hk hi,
        Chain.payload_eq (by rw [List.getElem?_append_left hlength]; exact hk) hi] at hpayload
  · refine hgrowth.same x ⟨?_, ?_, fun a ha hxa => ?_⟩
    · by_contra hinside
      exact hx (.bitmap (by omega) (by omega))
    · by_contra hinside
      exact hx (.counter (by omega) (by omega))
    · rcases List.mem_append.mp ha with ha | ha
      · exact hold ⟨a, ha, hxa⟩
      · exact hx (.block ha hxa)

omit [Layout.Roomy IsSize] in
/-- The free blocks before a write are those it took and those that are free afterwards. -/
theorem Overlay.freeBlocks_eq (regular : layout.Arranged IsSize)
    (h : Overlay layout m chain added offset data m') :
    freeBlocks layout m = added.length + freeBlocks layout m' := by
  have hle := card_marked_le (m := m') regular
  have hnodup : added.Nodup := (List.nodup_append.mp h.intact.nodup).2.1
  have hcard : (marked layout m').card = (marked layout m).card + added.length := by
    rw [h.marked_eq, Finset.card_union_of_disjoint, List.toFinset_card_of_nodup hnodup]
    exact Finset.disjoint_right.mpr fun a ha => h.free a (List.mem_toFinset.mp ha)
  rw [freeBlocks, freeBlocks, population_eq regular, population_eq regular]
  omega

/-- **A write is an overlay.** Whatever the chain holds and whatever else is on the volume, a write
that starts at its first block lays data over its payload, which is zero in new blocks. If there are
as many free blocks as the chain lacks, it takes so many and succeeds, with all of the data written.
If there are fewer, it takes them all and fails for want of space, and the part of the data that
falls into the chain is written. -/
theorem writeRange_overlays {σ : Type} [Store σ] [Reliable σ] {superblock : Superblock}
    {configured : UInt32} (hlayout : Layout.ofSuperblock superblock configured = .ok layout)
    (hlarge : 8 < configured.toNat) (store : σ) (hsize : layout.endAddress ≤ Store.size store)
    (intact : Intact layout (content store) chain) {start : Nat} (hstart : chain[0]? = some start)
    (offset : Nat) (data : ByteArray) (hdata : 0 < data.size) {r : Except Error Unit} {after : σ}
    (hwrite : (writeRange layout start offset data).outcome store = (r, after)) :
    ∃ added written, Store.size after = Store.size store ∧
      Overlay layout (content store) chain added offset written (content after) ∧
      (lacking layout chain (offset + data.size) ≤ freeBlocks layout (content store) →
        r = .ok () ∧ added.length = lacking layout chain (offset + data.size) ∧
        written = data) ∧
      (freeBlocks layout (content store) < lacking layout chain (offset + data.size) →
        r = .error .outOfSpace ∧ added.length = freeBlocks layout (content store) ∧
        freeBlocks layout (content after) = 0 ∧
        written = data.extract 0 (capacity layout (chain ++ added) - offset)) := by
  have regular : layout.Arranged (9 ≤ ·) :=
    Layout.arranged_of_ofSuperblock (by omega) hlarge hlayout
  have hends := (writeRange_ends regular hsize intact hstart offset hdata).outcome
    (rfl : Store.size store = _) rfl
  rw [hwrite] at hends
  dsimp only at hends
  obtain ⟨hsame, ⟨added, rfl, hwritten, hend, hleast⟩ |
    ⟨added, rfl, hwritten, hfull, hshort⟩ | ⟨e, n, -, he, -⟩⟩ := hends
  · -- the data were written as a whole, and the chain went on no further than it had to
    have hoverlay := hwritten.overlay regular intact
    have hlength := length_added regular hend hleast
    have hfree := hoverlay.freeBlocks_eq regular
    refine ⟨added, data, hsame, hoverlay, fun _ => ⟨rfl, hlength, rfl⟩, fun hlt => ?_⟩
    rw [lacking] at hlt
    omega
  · -- no block was left
    have hoverlay := hwritten.overlay regular intact
    have hfree := hoverlay.freeBlocks_eq regular
    have hnone : freeBlocks layout (content after) = 0 := by
      rw [freeBlocks, population_eq regular, hfull, regular.card_covered, Nat.sub_self]
    rw [capacity] at hshort
    have hlt := lt_blocksFor regular hshort
    rw [List.length_append] at hlt
    refine ⟨added, _, hsame, hoverlay, fun hle => ?_, fun _ => ⟨rfl, by omega, hnone, rfl⟩⟩
    rw [lacking] at hle
    omega
  · exact absurd he (Reliable.not_fault e)

/-- The block of the root of a new volume is written far enough for one block more, and so far that
all 4095 free blocks are not enough. -/
theorem writeRange_overlays_on_blank :
    ∃ volume : Memory, Volume.format 512 (Volume.blank 4195840) = .ok Volume.smallest volume ∧
      Intact Volume.smallest (content volume) [2098688] ∧
      freeBlocks Volume.smallest (content volume) = 4095 ∧
      (∃ added after, (writeRange Volume.smallest 2098688 1000 ⟨#[1]⟩).outcome volume
          = (.ok (), after) ∧ added.length = 1 ∧
        Overlay Volume.smallest (content volume) [2098688] added 1000 ⟨#[1]⟩ (content after)) ∧
      ∃ added after written, (writeRange Volume.smallest 2098688 2080768 ⟨#[1]⟩).outcome volume
          = (.error .outOfSpace, after) ∧ added.length = 4095 ∧
        Overlay Volume.smallest (content volume) [2098688] added 2080768 written
          (content after) := by
  obtain ⟨volume, hformat⟩ := Volume.format_blank
  have formatted := Volume.formatted_of_format hformat
  have intact : Intact Volume.smallest (content volume) [2098688] :=
    formatted.mapped.intact (show Volume.rootOnly Volume.smallest [] = some _ from rfl)
  have hfree : freeBlocks Volume.smallest (content volume) = 4095 := by
    rw [freeBlocks, population_eq formatted.regular, formatted.marked_eq, Finset.card_singleton]
    decide
  have hlayout : Layout.ofSuperblock ⟨512, 8195, 0⟩ 512 = .ok Volume.smallest := by decide
  refine ⟨volume, hformat, intact, hfree, ?_, ?_⟩
  · obtain ⟨added, written, -, hoverlay, henough, -⟩ := writeRange_overlays hlayout (by decide)
      volume formatted.fits intact rfl 1000 ⟨#[1]⟩ (by decide) rfl
    obtain ⟨hr, hlength, rfl⟩ := henough (by rw [hfree]; decide)
    exact ⟨added, _, Prod.ext hr rfl, hlength, hoverlay⟩
  · obtain ⟨added, written, -, hoverlay, -, hshort⟩ := writeRange_overlays hlayout (by decide)
      volume formatted.fits intact rfl 2080768 ⟨#[1]⟩ (by decide) rfl
    obtain ⟨hr, hlength, -, -⟩ := hshort (by rw [hfree]; decide)
    exact ⟨added, _, written, Prod.ext hr rfl, hlength.trans hfree, hoverlay⟩

/-! ## Blocks of eight bytes -/

/-- A layout with blocks of eight bytes. The last two bytes of the counter are the first two of the
bitmap. -/
def crowded : Layout where
  blockSize := 8
  blockCount := 4163
  superblockAddress := 32768
  bitmapAddress := 32784
  dataAddress := 32792

/-- A bitmap in which the second and the ninth block are free. -/
def twoFree : ByteArray :=
  ⟨#[0xfd, 0xfe, 0xff, 0xff, 0xff, 0xff, 0xff, 0xff]⟩

/-- A volume that is zero but for its bitmap. -/
def crowdedVolume : Memory :=
  ⟨Bytes.overlay (Bytes.zeros 33304) 32784 twoFree⟩

/-- What the volume holds. -/
def crowdedContent : Content :=
  Content.put (fun _ => 0) 32784 twoFree

/-- What it holds once the second block is marked and cleared. -/
def crowdedMarked : Content :=
  (assigned crowded crowdedContent 32800 true).put 32800 (Bytes.zeros 8)

/-- What it holds once that block is counted, which marks the ninth block, and is linked behind the
first one. -/
def crowdedLinked : Content :=
  (crowdedMarked.put 32782 (Bytes.ofNumber 4 65535)).put 32792 (Bytes.ofNumber 4 4100)

theorem ofSuperblock_crowded : Layout.ofSuperblock ⟨8, 4163, 0⟩ 8 = .ok crowded := by
  decide

theorem crowded_arranged : crowded.Arranged fun _ => True :=
  Layout.arranged_of_ofSuperblock (by decide) trivial ofSuperblock_crowded

theorem content_crowdedVolume : content crowdedVolume = crowdedContent :=
  Content.get_overlay_zeros _ (by decide)

theorem size_crowdedVolume : Store.size crowdedVolume = 33304 :=
  Bytes.size_overlay_zeros (by decide)

theorem intact_crowded : Intact crowded crowdedContent [32792] where
  ne_nil := List.cons_ne_nil _ _
  linked k a ha := by
    obtain ⟨rfl, rfl⟩ : k = 0 ∧ a = 32792 := by
      rcases k with _ | k
      · exact ⟨rfl, (Option.some.inj ha).symm⟩
      · cases ha
    decide +kernel
  nodup := List.nodup_singleton _
  marked a ha := by
    obtain rfl := List.mem_singleton.mp ha
    exact (dataBlock_mem_marked crowded_arranged (i := 0) (by decide)).mpr (by decide +kernel)

section Crowded

variable {τ : Type} [Store τ] [Reliable τ]

theorem next_crowded {a : Nat} (ha : a + 4 ≤ 33304) (h : m.number a 4 = 0) {store : τ}
    (hsize : Store.size store = 33304) (hcontent : content store = m) :
    next crowded store a = .ok 0 := by
  subst hcontent
  rw [next, readNumber_eq (by omega), h]
  rfl

theorem second_covered : 32800 ∈ crowded.covered :=
  Layout.Regular.mem_covered.mpr ⟨1, by decide, rfl⟩

theorem second_free : 32800 ∉ marked crowded crowdedContent := by
  have hbit : bit crowded crowdedContent 1 = false := by decide +kernel
  intro hmem
  rw [(dataBlock_mem_marked crowded_arranged (i := 1) (by decide)).mp hmem] at hbit
  cases hbit

/-- The second block is the first free one. -/
theorem nextFree_crowded {store : τ} (hsize : Store.size store = 33304)
    (hcontent : content store = crowdedContent) : nextFree crowded store = .ok 32800 := by
  have hfits : crowded.endAddress ≤ Store.size store := by
    rw [hsize]
    decide
  rcases nextFree_spec crowded_arranged hfits with ⟨a, ha, hclear, hfirst, hfound⟩ | ⟨hfull, -⟩
  · rw [hcontent] at hclear hfirst
    rcases Nat.lt_trichotomy a 32800 with hlt | rfl | hgt
    · -- the only block in front of it is the first one
      obtain ⟨i, -, rfl⟩ := Layout.Regular.mem_covered.mp ha
      have hzero : i = 0 := by
        simp only [Layout.dataBlock, crowded] at hlt
        omega
      subst hzero
      exact absurd (intact_crowded.marked _ (List.mem_singleton_self _)) hclear
    · exact hfound
    · exact absurd (hfirst _ second_covered hgt) second_free
  · rw [hcontent] at hfull
    exact absurd (hfull ▸ second_covered) second_free

/-- To count the second block is to set the bit of the ninth one. -/
theorem recount_crowded : (recount crowded increment : Edit τ Unit).Ends 33304 crowdedMarked
    fun r m' => r = .ok () ∧ m' = crowdedMarked.put 32782 (Bytes.ofNumber 4 65535) := by
  refine .ask_bind (a := 65534) ?_ ?_
  · intro store hsize hcontent
    have hcounter : crowdedMarked.number 32782 4 = 65534 := by decide +kernel
    have hread : allocCount crowded store = .ok (crowdedMarked.number 32782 4) :=
      hcontent ▸ readNumber_eq (by rw [hsize]; decide)
    rw [hread, hcounter]
  · exact .write (by decide) ⟨rfl, rfl⟩ fun e he => absurd he (Reliable.not_fault e)

theorem acquire_crowded : (acquire crowded : Edit τ Nat).Ends 33304 crowdedContent fun r m' =>
    r = .ok 32800 ∧ m' = crowdedMarked.put 32782 (Bytes.ofNumber 4 65535) := by
  refine .ask_bind (fun store => nextFree_crowded) ?_
  refine .bind (assign_ends crowded_arranged (by decide) second_covered true) ?_ ?_
  · rintro e m' (⟨hr, -⟩ | ⟨e', -, he, -⟩)
    · cases hr
    · exact absurd he (Reliable.not_fault e')
  rintro wasAllocated m' (⟨hr, rfl⟩ | ⟨e', -, he, -⟩)
  · obtain rfl := Except.ok.inj hr
    rw [decide_eq_false second_free]
    refine .write_bind (by decide) (fun e he => absurd he (Reliable.not_fault e)) ?_
    refine .bind recount_crowded ?_ ?_
    · rintro e m' ⟨hr, -⟩
      cases hr
    · rintro ⟨⟩ m' ⟨-, rfl⟩
      exact .pure ⟨rfl, rfl⟩
  · exact absurd he (Reliable.not_fault e')

/-- The second block is taken and linked behind the first one. -/
theorem nextOrExtend_crowded : (nextOrExtend crowded 32792 : Edit τ Nat).Ends 33304 crowdedContent
    fun r m' => r = .ok 32800 ∧ m' = crowdedLinked := by
  refine .ask_bind (fun store => next_crowded (by decide) (by decide +kernel)) ?_
  refine .bind acquire_crowded ?_ ?_
  · rintro e m' ⟨hr, -⟩
    cases hr
  rintro a m' ⟨hr, rfl⟩
  obtain rfl := Except.ok.inj hr
  have hlink : (link crowded 32792 32800 : Edit τ Unit).Ends 33304
      (crowdedMarked.put 32782 (Bytes.ofNumber 4 65535)) fun r m' =>
        r = .ok () ∧ m' = crowdedLinked :=
    .ofExcept_bind rfl (.write (by decide) ⟨rfl, rfl⟩ fun e he => absurd he (Reliable.not_fault e))
  refine .bind hlink ?_ ?_
  · rintro e m' ⟨hr, -⟩
    cases hr
  · rintro ⟨⟩ m' ⟨-, rfl⟩
    exact .pure ⟨rfl, rfl⟩

/-- No block is left for another one. -/
theorem nextOrExtend_crowdedLinked : (nextOrExtend crowded 32800 : Edit τ Nat).Ends 33304
    crowdedLinked fun r _ => r = .error .outOfSpace := by
  have hfull : marked crowded crowdedLinked = crowded.covered := by
    refine Finset.Subset.antisymm marked_subset_covered fun a ha => ?_
    obtain ⟨i, hi, rfl⟩ := Layout.Regular.mem_covered.mp ha
    have hbits : ∀ i < 64, bit crowded crowdedLinked i = true := by decide +kernel
    exact (dataBlock_mem_marked crowded_arranged hi).mpr (hbits i hi)
  have hacquire : (acquire crowded : Edit τ Nat).Ends 33304 crowdedLinked
      fun r _ => r = .error .outOfSpace := by
    refine .ask_bind_error ?_ rfl
    intro store hsize hcontent
    rw [← hcontent] at hfull
    have hfits : crowded.endAddress ≤ Store.size store := by
      rw [hsize]
      decide
    rcases nextFree_spec crowded_arranged hfits with
      ⟨a, ha, hfree, -⟩ | ⟨-, hnone⟩
    · exact absurd (hfull ▸ ha) hfree
    · exact hnone
  refine .ask_bind (fun store => next_crowded (by decide) (by decide +kernel))
    (.bind hacquire ?_ ?_)
  · exact fun e m' hr => hr
  · rintro a m' ⟨⟩

end Crowded

/-- In blocks of eight bytes a write is no overlay. The chain is one block, it lacks two, and two
are free. But to count the first of them marks the other one, and the write fails for want of
space. -/
theorem writeRange_crowded :
    Layout.ofSuperblock ⟨8, 4163, 0⟩ 8 = .ok crowded ∧
    crowded.endAddress ≤ Store.size crowdedVolume ∧
    Intact crowded (content crowdedVolume) [32792] ∧
    lacking crowded [32792] (8 + 1) = 2 ∧ freeBlocks crowded (content crowdedVolume) = 2 ∧
    ((writeRange crowded 32792 8 ⟨#[1]⟩).outcome crowdedVolume).1 = .error .outOfSpace := by
  have hadvance : (advance crowded 2 32792 : Edit Memory Nat).Ends 33304 crowdedContent
      fun r _ => r = .error .outOfSpace := by
    refine .bind nextOrExtend_crowded ?_ ?_
    · rintro e m' ⟨hr, -⟩
      cases hr
    rintro a m' ⟨hr, rfl⟩
    obtain rfl := Except.ok.inj hr
    exact .bind nextOrExtend_crowdedLinked (fun e m' hr => hr) fun a m' hr => nomatch hr
  have hwrite : (writeRange crowded 32792 8 ⟨#[1]⟩ : Edit Memory Unit).Ends 33304 crowdedContent
      fun r _ => r = .error .outOfSpace := by
    rw [writeRange, if_neg (by decide), if_neg (by decide)]
    refine .bind hadvance (fun e m' hr => ?_) fun a m' hr => nomatch hr
    rw [Except.error.inj hr]
  refine ⟨ofSuperblock_crowded, by rw [size_crowdedVolume]; decide, ?_, by decide, ?_,
    (hwrite.outcome size_crowdedVolume content_crowdedVolume).2⟩
  · rw [content_crowdedVolume]
    exact intact_crowded
  · rw [content_crowdedVolume]
    decide +kernel

end Chain

end ChainFs
