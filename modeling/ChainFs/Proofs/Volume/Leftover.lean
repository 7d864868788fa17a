import ChainFs.Proofs.Volume.Independence
import ChainFs.Proofs.Volume.Opened

/-!
# Superblocks of other block sizes

Where the superblock stands depends on the block size, so a store may hold the superblocks of
several volumes at once. Formatting writes its own and clears the bitmap and the first block of the
root; a superblock of another block size that stands elsewhere stays.

* `Edit.Within` — an edit that changes bytes of one region only;
* `Volume.format_within` — formatting is such an edit;
* `Volume.Untouched` — the block sizes whose superblock it leaves alone;
* `Volume.load_other_iff` — a formatted store opens with another block size exactly if it did so
  before and that superblock was left alone;
* `Volume.opens_with_former_size` — this happens.

All that has to be known of a new volume for this is parity: a superblock starts with a letter whose
code is odd, and behind its first byte the bitmap of a new volume, like the block of its root, holds
even bytes only.
-/

namespace ChainFs

open Store Bitmap

variable {σ : Type} [Store σ] [Faithful σ] {layout : Layout} {size : Nat} {m : Content}

/-! ## Edits of a region -/

/-- However it ends, an edit changes no byte outside of a region. -/
def Edit.Within {α : Type} (act : Edit σ α) (size : Nat) (region : Nat → Prop) : Prop :=
  ∀ m, act.Ends size m fun _ m' => ∀ x, ¬ region x → m' x = m x

namespace Edit.Within

variable {α β : Type} {region : Nat → Prop}

theorem of_ends {act : Edit σ α} {post : Content → Except Error α → Content → Prop}
    (h : ∀ m, act.Ends size m (post m))
    (hsame : ∀ m r m', post m r m' → ∀ x, ¬ region x → m' x = m x) : act.Within size region :=
  fun m => (h m).mono fun r m' => hsame m r m'

theorem bind {first : Edit σ α} {second : α → Edit σ β} (hfirst : first.Within size region)
    (hsecond : ∀ a, (second a).Within size region) : (first >>= second).Within size region := by
  intro m
  refine .bind (hfirst m) (fun _ _ h => h) fun a m' hsame => (hsecond a m').mono ?_
  exact fun r m'' hsame' x hx => (hsame' x hx).trans (hsame x hx)

/-- A step that asks what the size of a store decides. -/
theorem ask_bind {question : σ → Except Error α} {second : α → Edit σ β} {a : α}
    (h : ∀ store, Store.size store = size → question store = .ok a)
    (hsecond : (second a).Within size region) :
    (Edit.ask question >>= second).Within size region :=
  fun m => .ask_bind (fun store hsize _ => h store hsize) (hsecond m)

theorem pure (a : α) : (Pure.pure a : Edit σ α).Within size region :=
  fun _ => .pure fun _ _ => rfl

theorem write {offset : Nat} {bytes : ByteArray} (hend : offset + bytes.size ≤ size)
    (h : ∀ x, offset ≤ x → x < offset + bytes.size → region x) :
    (Store.write offset bytes : Edit σ Unit).Within size region := by
  refine fun m => .write hend (fun x hx => Content.put_outside m ?_) fun _ _ _ _ => rfl
  by_contra hinside
  exact hx (h x (by omega) (by omega))

theorem flush : (Store.flush : Edit σ Unit).Within size region :=
  fun _ => .flush (fun _ _ => rfl) fun _ _ _ _ => rfl

end Edit.Within

/-- The superblock with the rest of its block, the bitmap, and the first block of the root. -/
def Layout.Renewed (layout : Layout) (x : Nat) : Prop :=
  layout.InBlock layout.superblockAddress x ∨
    layout.bitmapAddress ≤ x ∧ x < layout.dataAddress + layout.blockSize

/-! ## Superblocks -/

namespace Volume

variable {blockSize other : UInt32} {former : Layout} {store after : σ}

/-- A store that opens has this letter where the superblock starts. -/
theorem content_of_load (h : load store other = .ok former) :
    content store (Layout.superblockAddressFor other.toNat) = 0x4d := by
  obtain ⟨superblock, hdecode, hlayout⟩ := sealed_of_load h
  have hfirst := Superblock.get_zero_of_decode hdecode
  have hge := (regular_of_load h).1.blockSize_ge
  rw [Content.get_window _ (by omega), (ofSuperblock_fields hlayout).2.2.2] at hfirst
  exact hfirst

/-- A store opens as before where the superblock was left alone. -/
theorem load_of_kept (hsize : Store.size after = Store.size store)
    (h : load store other = .ok former)
    (hkept : ∀ x, Layout.superblockAddressFor other.toNat ≤ x →
      x < Layout.superblockAddressFor other.toNat + other.toNat →
      content after x = content store x) : load after other = .ok former := by
  obtain ⟨regular, hfits⟩ := regular_of_load h
  have sealed := sealed_of_load h
  obtain ⟨superblock, -, hlayout⟩ := id sealed
  obtain ⟨-, hblockSize, -, haddress⟩ := ofSuperblock_fields hlayout
  have hge := regular.blockSize_ge
  refine Sealed.load_eq (sealed.congr regular fun x hle hlt => hkept x (by omega) ?_) regular
    (hsize ▸ hfits)
  rw [Block.counterAddress, Superblock.allocCountOffset] at hlt
  omega

/-! ## What formatting leaves alone -/

theorem clearBlocks_within {region : Nat → Prop} (blockSize count address : Nat)
    (hend : address + count * blockSize ≤ size)
    (h : ∀ x, address ≤ x → x < address + count * blockSize → region x) :
    (clearBlocks blockSize count address : Edit σ Unit).Within size region := by
  induction count generalizing address with
  | zero => exact .pure ()
  | succ count ih =>
    rw [Nat.succ_mul] at hend h
    refine .bind (.write (by rw [Bytes.size_zeros]; omega) fun x hle hlt => h x hle ?_) fun _ =>
      ih (address + blockSize) (by omega) fun x hle hlt => h x (by omega) (by omega)
    rw [Bytes.size_zeros] at hlt
    omega

/-- Formatting changes the superblock, the bitmap and the first block of the root. -/
theorem format_within (hlayout : layoutFor size blockSize = .ok layout) :
    (format blockSize : Edit σ Layout).Within size layout.Renewed := by
  obtain ⟨superblock, hsuperblock, hdescribed, regular, hfits⟩ := of_layoutFor hlayout
  have hspare := regular.spare_end
  have hbitmap := regular.bitmap_lt_data
  have hdata := regular.data_eq
  have hend := regular.data_le_end
  have hge := regular.blockSize_ge
  have hlength : Superblock.encodedSize = 18 := rfl
  refine .ask_bind (fun store hsize => hsize ▸ hsuperblock)
    (.ask_bind (fun _ _ => hdescribed) ?_)
  refine .bind (.write (by rw [Bytes.size_zeros]; omega) fun x hle hlt => ?_) fun _ => ?_
  · rw [Bytes.size_zeros] at hlt
    exact .inl ⟨hle, hlt⟩
  refine .bind (clearBlocks_within _ _ _ (by omega) fun x hle hlt => .inr ?_) fun _ => ?_
  · exact ⟨hle, by omega⟩
  refine .bind (.of_ends (fun m => assign_ends regular hfits regular.data_mem_covered true) ?_)
    fun _ => ?_
  · rintro m r m' (⟨-, rfl⟩ | ⟨e, -, -, rfl⟩) x hx
    · refine assigned_outside regular regular.data_mem_covered true ?_
      by_contra hinside
      exact hx (.inr (by omega))
    · rfl
  refine .bind (.write (by rw [Bytes.size_zeros]; omega) fun x hle hlt => ?_) fun _ => ?_
  · rw [Bytes.size_zeros] at hlt
    exact .inr ⟨by omega, hlt⟩
  refine .bind (.write ?_ fun x hle hlt => ?_) fun _ => .bind .flush fun _ => .pure layout
  · rw [Superblock.size_encode]
    omega
  · rw [Superblock.size_encode] at hlt
    exact .inl ⟨hle, by omega⟩

/-- Of two powers of two the larger one is at least twice the smaller one. -/
theorem two_mul_le_of_lt {a b : Nat} (ha : a.isPowerOfTwo) (hb : b.isPowerOfTwo) (h : a < b) :
    2 * a ≤ b := by
  obtain ⟨j, rfl⟩ := ha
  obtain ⟨k, rfl⟩ := hb
  have hlt : j < k := (Nat.pow_lt_pow_iff_right (by decide)).mp h
  rw [← Nat.pow_succ']
  exact Nat.pow_le_pow_right (by decide) hlt

/-- The block sizes whose superblock formatting leaves alone: it stands in the reserved area, or
behind the first block of the root. -/
def Untouched (layout : Layout) (other : UInt32) : Prop :=
  Layout.superblockAddressFor other.toNat < layout.superblockAddress ∨
    layout.dataAddress + layout.blockSize ≤ Layout.superblockAddressFor other.toNat

section Other

variable (regular : layout.Regular) (hpower : other.toNat.isPowerOfTwo)
  (hne : other.toNat ≠ layout.blockSize)
include regular hpower hne

/-- A superblock that starts outside of what formatting changes is outside of it as a whole. -/
theorem not_renewed (huntouched : Untouched layout other) {x : Nat}
    (hle : Layout.superblockAddressFor other.toNat ≤ x)
    (hlt : x < Layout.superblockAddressFor other.toNat + other.toNat) : ¬ layout.Renewed x := by
  have hsuperblock := regular.superblock_eq
  have hspare := regular.spare_end
  have hbitmap := regular.bitmap_lt_data
  unfold Untouched at huntouched
  unfold Layout.Renewed Layout.InBlock
  rw [Layout.superblockAddressFor, Layout.reservedBlocks] at huntouched hle hlt
  rcases Nat.lt_or_gt_of_ne hne with hsmall | hlarge
  · have htwice := two_mul_le_of_lt hpower regular.blockSize_isPowerOfTwo hsmall
    omega
  · omega

/-- Any other one starts with a byte of the bitmap, though not its first one, or of the root. -/
theorem behind_of_not_untouched (huntouched : ¬ Untouched layout other) :
    layout.bitmapAddress < Layout.superblockAddressFor other.toNat ∧
      Layout.superblockAddressFor other.toNat < layout.dataAddress + layout.blockSize := by
  have hsuperblock := regular.superblock_eq
  have hbitmap := regular.bitmap_eq
  have hge := regular.blockSize_ge
  unfold Untouched at huntouched
  rw [Layout.superblockAddressFor, Layout.reservedBlocks] at huntouched ⊢
  rcases Nat.lt_or_gt_of_ne hne with hsmall | hlarge
  · omega
  · have htwice := two_mul_le_of_lt regular.blockSize_isPowerOfTwo hpower hlarge
    omega

end Other

/-- Behind the first byte of the bitmap and up to the end of the root no byte of a new volume is
odd. -/
theorem Formatted.even (formatted : Formatted layout blockSize size m) {x : Nat}
    (hle : layout.bitmapAddress < x) (hlt : x < layout.dataAddress + layout.blockSize) :
    hasBit (m x) 0 = false := by
  by_cases hroot : layout.dataAddress ≤ x
  · rw [formatted.zero x ⟨hroot, hlt⟩]
    rfl
  have hbits := formatted.regular.bitmapBits_eq
  obtain ⟨j, rfl⟩ := Nat.exists_eq_add_of_lt hle
  have hindex : 8 * (j + 1) < layout.bitmapBits := by omega
  have hbit : bit layout m (8 * (j + 1)) ≠ true := by
    rw [ne_eq, ← dataBlock_mem_marked formatted.regular hindex, formatted.marked_eq,
      Finset.mem_singleton]
    have hpos := Nat.mul_pos (show 0 < 8 * (j + 1) by omega) formatted.regular.blockSize_pos
    rw [Layout.dataBlock]
    omega
  rw [bit, Nat.mul_div_cancel_left _ (by decide), Nat.mul_mod_right] at hbit
  exact Bool.eq_false_iff.mpr hbit

/-! ## Opening with another block size -/

/-- A volume that opens has blocks of the size it was opened with. -/
theorem blockSize_of_load (h : load store blockSize = .ok layout) :
    layout.blockSize = blockSize.toNat ∧ blockSize.toNat.isPowerOfTwo := by
  obtain ⟨superblock, -, hlayout⟩ := sealed_of_load h
  have hsame := (ofSuperblock_fields hlayout).2.1
  exact ⟨hsame, hsame ▸ (regular_of_load h).1.blockSize_isPowerOfTwo⟩

/-- The superblock for another block size, where formatting leaves it alone. -/
theorem content_untouched {formatted : σ} (hformat : format blockSize store = .ok layout formatted)
    (hpower : other.toNat.isPowerOfTwo) (hne : other.toNat ≠ layout.blockSize)
    (huntouched : Untouched layout other) {x : Nat}
    (hle : Layout.superblockAddressFor other.toNat ≤ x)
    (hlt : x < Layout.superblockAddressFor other.toNat + other.toNat) :
    content formatted x = content store x := by
  have regular := (formatted_of_ok hformat).2.regular
  have hends := format_within (σ := σ) (layoutFor_of_ok hformat) (content store)
  obtain ⟨-, hsame⟩ := hends.of_ok rfl rfl hformat
  exact hsame x (not_renewed regular hpower hne huntouched hle hlt)

/-- A store that was formatted does not open with another block size, except where it did so before
and the superblock of that volume is outside of what formatting changes. There the former volume
opens as it did. -/
theorem load_other_iff {formatted : σ} (hformat : format blockSize store = .ok layout formatted)
    (hother : other ≠ blockSize) :
    (∀ former, load formatted other = .ok former ↔
      load store other = .ok former ∧ Untouched layout other) ∧
    ∀ e, load formatted other = .error e → ∃ fault, e = .invalidImage fault := by
  obtain ⟨hsize, hformatted⟩ := formatted_of_ok hformat
  have hne : other.toNat ≠ layout.blockSize := by
    obtain ⟨superblock, -, hlayout⟩ := hformatted.sealed
    rw [(ofSuperblock_fields hlayout).2.1]
    exact fun h => hother (UInt32.toNat_inj.mp h)
  refine ⟨fun former => ⟨fun h => ?_, fun ⟨h, huntouched⟩ => ?_⟩, fun e => load_error⟩
  · obtain ⟨hblockSize, hpower⟩ := blockSize_of_load h
    have huntouched : Untouched layout other := by
      by_contra hcovered
      obtain ⟨hbehind, hroot⟩ := behind_of_not_untouched hformatted.regular hpower hne hcovered
      have heven := hformatted.even hbehind hroot
      rw [content_of_load h] at heven
      exact absurd heven (by decide)
    refine ⟨load_of_kept hsize.symm h fun x hle hlt => ?_, huntouched⟩
    exact (content_untouched hformat hpower hne huntouched hle hlt).symm
  · obtain ⟨-, hpower⟩ := blockSize_of_load h
    exact load_of_kept hsize h fun x => content_untouched hformat hpower hne huntouched

theorem content_blank (size x : Nat) : content (blank size) x = 0 :=
  Bytes.get_zeros ..

/-- A store that was all zero does not open with the larger blocks. -/
theorem load_other_on_blank :
    ∃ formatted, format 512 (blank 4195840) = .ok smallest formatted ∧ (1024 : UInt32) ≠ 512 ∧
      ∃ fault, load formatted 1024 = .error (.invalidImage fault) := by
  obtain ⟨formatted, hformat⟩ := format_blank
  have hother := load_other_iff hformat (show (1024 : UInt32) ≠ 512 by decide)
  refine ⟨formatted, hformat, by decide, ?_⟩
  rcases hload : load formatted 1024 with e | former
  · obtain ⟨fault, rfl⟩ := hother.2 e hload
    exact ⟨fault, rfl⟩
  · obtain ⟨hformer, -⟩ := (hother.1 former).mp hload
    have hfirst := content_of_load hformer
    rw [content_blank] at hfirst
    exact absurd hfirst (by decide)

/-- The superblock of a volume with smaller blocks stands in the reserved area of the new one, and
the store still opens with it. -/
theorem opens_with_former_size :
    ∃ volume formatted : Memory,
      format 512 (blank 12585984) = .ok ⟨512, 24582, 2097152, 2098176, 2100224⟩ volume ∧
      format 1024 volume = .ok ⟨1024, 12291, 4194304, 4196352, 4197376⟩ formatted ∧
      load formatted 512 = .ok ⟨512, 24582, 2097152, 2098176, 2100224⟩ := by
  have hlayout : layoutFor (Store.size (blank 12585984)) 512
      = .ok ⟨512, 24582, 2097152, 2098176, 2100224⟩ := by
    rw [size_blank]
    decide
  have hformat := format_eq hlayout
  generalize ((format 512).outcome (blank 12585984)).2 = volume at hformat
  obtain ⟨hsize, hvolume⟩ := formatted_of_ok hformat
  have hload := hvolume.sealed.load_eq hvolume.regular (hvolume.fits.trans hsize.ge)
  have hlayout' : layoutFor (Store.size volume) 1024
      = .ok ⟨1024, 12291, 4194304, 4196352, 4197376⟩ := by
    rw [hsize, size_blank]
    decide
  have hagain := format_eq hlayout'
  generalize ((format 1024).outcome volume).2 = formatted at hagain
  refine ⟨volume, formatted, hformat, hagain, ?_⟩
  refine load_of_kept (formatted_of_ok hagain).1 hload fun x => ?_
  exact content_untouched hagain ⟨9, rfl⟩ (by decide) (.inl (by decide))

end Volume

end ChainFs
