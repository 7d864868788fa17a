import ChainFs.Proofs.Regions
import ChainFs.Proofs.Superblock

/-!
# Volumes that open

Of a volume that opens nothing is known but what its superblock says: directories, chains and the
bitmap may hold any bytes.

* `Volume.regular_of_load` — still its regions follow each other and lie inside the store;
* `Layout.IsBlock` — the addresses of the blocks of the data region, whether or not the bitmap has a
  bit for them;
* `Chain.isBlock_of_next` — a link that is followed leads to such a block, or nowhere.

These few facts are what statements about damaged volumes start from: an address that was looked at
is in the data region or was refused, and all arithmetic with it stays inside the volume.
-/

namespace ChainFs

namespace Volume

variable {σ : Type} [Store σ] {layout : Layout} {store : σ} {blockSize : UInt32}

/-- The layout of a volume that opens is regular, and the store is long enough for it. -/
theorem regular_of_load (h : load store blockSize = .ok layout) :
    layout.Regular ∧ layout.endAddress ≤ Store.size store := by
  unfold load superblockAt at h
  dsimp only at h
  split at h
  · cases h
  simp only [bind, Except.bind] at h
  split at h
  · cases h
  rename_i superblock hsuperblock
  split at h
  · cases h
  rename_i layout' hlayout
  split at h
  · cases h
  rename_i hfits
  obtain rfl := Except.ok.inj h
  split at hsuperblock
  · cases hsuperblock
  have hconfigured : superblock.blockSize = blockSize := by
    by_contra hne
    rw [Layout.ofSuperblock, if_pos hne] at hlayout
    cases hlayout
  have hsize := Superblock.isBlockSize_of_decode hsuperblock
  rw [hconfigured] at hsize
  exact ⟨Layout.regular_of_ofSuperblock hsize hlayout, Nat.le_of_not_lt hfits⟩

end Volume

/-! ## Blocks of the data region -/

namespace Layout

variable {layout : Layout} {a : Nat}

/-- A block of the data region starts at the address. -/
structure IsBlock (layout : Layout) (a : Nat) : Prop where
  aligned : a % layout.blockSize = 0
  inData : layout.InData a

/-- A block of the data region lies in it as a whole. -/
theorem IsBlock.end_le (h : layout.IsBlock a) : a + layout.blockSize ≤ layout.endAddress := by
  obtain ⟨q, rfl⟩ := Nat.dvd_of_mod_eq_zero h.aligned
  have hlt := h.inData.2
  rw [endAddress, Nat.mul_comm] at hlt
  rw [endAddress, Nat.mul_comm, ← Nat.succ_mul]
  exact Nat.mul_le_mul_right _ (Nat.lt_of_mul_lt_mul_right hlt)

namespace Regular

theorem isBlock_of_mem (regular : layout.Regular) (h : a ∈ layout.covered) : layout.IsBlock a :=
  ⟨regular.mod_of_mem h, regular.inData_of_mem h⟩

theorem isBlock_data (regular : layout.Regular) : layout.IsBlock layout.dataAddress :=
  regular.isBlock_of_mem regular.data_mem_covered

end Regular

end Layout

/-- A link that can be followed leads nowhere or to a block of the data region. -/
theorem Chain.isBlock_of_next {σ : Type} [Store σ] {layout : Layout} {store : σ} {a target : Nat}
    (h : next layout store a = .ok target) : target = 0 ∨ layout.IsBlock target := by
  unfold next at h
  simp only [bind, Except.bind] at h
  split at h
  · cases h
  rename_i block hblock
  split at h
  · cases h
  rename_i hvalid
  obtain rfl := Except.ok.inj h
  by_cases hzero : layout.blockAddress block = 0
  · exact .inl hzero
  · refine .inr ⟨Nat.mul_mod_left .., ?_⟩
    by_contra hout
    exact hvalid ⟨hzero, hout⟩

end ChainFs
