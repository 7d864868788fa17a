import ChainFs.Proofs.Superblock
import ChainFs.Proofs.Volume.Changes

/-!
# A new volume

Formatting writes to a store of which nothing is known. The old superblock is erased first; then the
bitmap is cleared, the bit of the root is set and its first block cleared; the new superblock is
written last. All that has to be known of the blocks behind is that no bit marks them. The smallest
volume, at the end of this file, is the one that instances of later theorems are about.

* `Volume.Sealed` — the superblock describes this layout, so the volume opens with it;
* `Volume.format_ends` — formatting makes a volume that holds nothing but an empty root.
-/

namespace ChainFs.Volume

open Store Bitmap Chain Directory

variable {σ : Type} [Store σ] [Faithful σ] {layout : Layout} {m m' : Content} {size : Nat}
  {blockSize : UInt32}

/-! ## Opening a volume -/

/-- What a layout takes over from its superblock. -/
theorem ofSuperblock_fields {superblock : Superblock}
    (h : Layout.ofSuperblock superblock blockSize = .ok layout) :
    superblock.blockSize = blockSize ∧ layout.blockSize = blockSize.toNat ∧
      layout.blockCount = superblock.blockCount.toNat ∧
      layout.superblockAddress = Layout.superblockAddressFor blockSize.toNat := by
  obtain ⟨hsame, -, -, rfl⟩ := Layout.of_ofSuperblock h
  exact ⟨hsame, rfl, rfl, rfl⟩

/-- The superblock describes the layout. -/
def Sealed (layout : Layout) (blockSize : UInt32) (m : Content) : Prop :=
  ∃ superblock, Superblock.decode (m.window layout.superblockAddress layout.blockSize)
      = .ok superblock ∧
    Layout.ofSuperblock superblock blockSize = .ok layout

namespace Sealed

/-- The superblock goes on describing the layout where only the count of blocks in use changes. -/
theorem congr (sealed : Sealed layout blockSize m) (regular : layout.Regular)
    (h : ∀ x, layout.superblockAddress ≤ x → x < Block.counterAddress layout → m' x = m x) :
    Sealed layout blockSize m' := by
  obtain ⟨superblock, hdecode, hlayout⟩ := sealed
  have hge := regular.blockSize_ge
  have hoffset : Superblock.allocCountOffset = 14 := rfl
  refine ⟨_, Superblock.decode_recount (by simp) (fun i hi => ?_) hdecode, hlayout⟩
  rw [Content.get_window m' (by omega), Content.get_window m (by omega)]
  exact h _ (Nat.le_add_right ..) (Nat.add_lt_add_left hi _)

theorem of_growth (sealed : Sealed layout blockSize m) (regular : layout.Regular)
    {touched taken : List Nat} {counted : Nat} (growth : Growth layout m touched taken counted m') :
    Sealed layout blockSize m' := by
  have hcounter := Elsewhere.counter_end regular
  exact sealed.congr regular fun x _ hx =>
    growth.same x (.of_lt regular growth.covered (by omega) (.inl hx))

/-- A sealed volume opens with its layout. -/
theorem load_eq {store : σ} (sealed : Sealed layout blockSize (content store))
    (regular : layout.Regular) (hsize : layout.endAddress ≤ Store.size store) :
    load store blockSize = .ok layout := by
  obtain ⟨superblock, hdecode, hlayout⟩ := sealed
  obtain ⟨-, hblockSize, -, haddress⟩ := ofSuperblock_fields hlayout
  have hspare := regular.spare_end
  have hbitmap := regular.bitmap_lt_data
  have hend := regular.data_le_end
  unfold load superblockAt
  dsimp only
  rw [← haddress, ← hblockSize, if_neg (by omega), read_eq (by omega)]
  simp only [bind, Except.bind]
  rw [hdecode]
  dsimp only
  rw [hlayout]
  dsimp only
  rw [if_neg (by omega)]

/-- The usage is what the superblock counts. -/
theorem usage_eq {store : σ} (sealed : Sealed layout blockSize (content store))
    (regular : layout.Regular) (hsize : layout.endAddress ≤ Store.size store) :
    usage layout store = .ok ⟨layout.blockSize, layout.blockCount,
      Block.counter layout (content store)⟩ := by
  obtain ⟨superblock, hdecode, hlayout⟩ := sealed
  have hspare := regular.spare_end
  have hbitmap := regular.bitmap_lt_data
  have hend := regular.data_le_end
  have hge := regular.blockSize_ge
  have hcount : superblock.allocCount.toNat = Block.counter layout (content store) := by
    have hrecount := Superblock.decode_recount rfl (fun _ _ => rfl) hdecode
    have hsame := congrArg Superblock.allocCount (Except.ok.inj (hdecode.symm.trans hrecount))
    have hlt := Content.number_lt (content store) (Block.counterAddress layout) 4
    have hoffset : Superblock.allocCountOffset + 4 ≤ layout.blockSize := by
      rw [Superblock.allocCountOffset]
      omega
    rw [hsame]
    dsimp only
    rw [Content.number_window _ hoffset]
    exact UInt32.toNat_ofNat_of_lt' hlt
  unfold usage superblockAt
  rw [read_eq (by omega)]
  simp only [bind, Except.bind]
  rw [hdecode, ← hcount]
  rfl

end Sealed

/-- A volume that opens is described by the superblock for its block size. -/
theorem sealed_of_load {store : σ} (h : load store blockSize = .ok layout) :
    Sealed layout blockSize (content store) := by
  unfold load superblockAt at h
  dsimp only at h
  split at h
  · cases h
  rename_i hlong
  rw [Store.read_eq (by omega)] at h
  simp only [bind, Except.bind] at h
  split at h
  · cases h
  rename_i superblock hdecode
  split at h
  · cases h
  rename_i found hlayout
  split at h
  · cases h
  obtain rfl := Except.ok.inj h
  obtain ⟨-, hblockSize, -, haddress⟩ := ofSuperblock_fields hlayout
  rw [← haddress, ← hblockSize] at hdecode
  exact ⟨superblock, hdecode, hlayout⟩

/-- A store that does not open is no image of a volume. -/
theorem load_error {store : σ} {e : Error} (h : load store blockSize = .error e) :
    ∃ fault, e = .invalidImage fault := by
  unfold load superblockAt at h
  dsimp only at h
  split at h
  · exact ⟨_, (Except.error.inj h).symm⟩
  rename_i hlong
  rw [Store.read_eq (by omega)] at h
  simp only [bind, Except.bind] at h
  split at h
  · rename_i e' hdecode
    obtain rfl := Except.error.inj h
    unfold Superblock.decode at hdecode
    split_ifs at hdecode
    all_goals exact ⟨_, (Except.error.inj hdecode).symm⟩
  split at h
  · rename_i e' hlayout
    obtain rfl := Except.error.inj h
    unfold Layout.ofSuperblock at hlayout
    dsimp only at hlayout
    split_ifs at hlayout
    all_goals exact ⟨_, (Except.error.inj hlayout).symm⟩
  · split at h
    · exact ⟨_, (Except.error.inj h).symm⟩
    · cases h

/-! ## Formatting -/

/-- The branches of a volume that has only its root, in one block. -/
def rootOnly (layout : Layout) : Branches := fun names =>
  if names = [] then some ⟨Node.root layout, [layout.dataAddress]⟩ else none

/-- A volume that was just formatted. -/
structure Formatted (layout : Layout) (blockSize : UInt32) (size : Nat) (m : Content) : Prop where
  regular : layout.Regular
  fits : layout.endAddress ≤ size
  sealed : Sealed layout blockSize m
  mapped : Mapped layout m (rootOnly layout)
  marked_eq : marked layout m = {layout.dataAddress}
  counter_eq : Block.counter layout m = 1
  zero : ∀ x, layout.InBlock layout.dataAddress x → m x = 0
  superblock_eq : ∀ i < Superblock.encodedSize, m (layout.superblockAddress + i)
    = Bytes.get (Superblock.encode ⟨blockSize, UInt32.ofNat layout.blockCount, 1⟩) i

/-- The root of a new volume has no entries, and its block is free behind the link. -/
theorem Formatted.empty (formatted : Formatted layout blockSize size m) :
    entries layout m [layout.dataAddress] = [] ∧
      vacantIn layout m layout.dataAddress Cursor.firstRecord = Cursor.firstRecord := by
  obtain ⟨hnodes, hvacant⟩ : nodesFrom layout m layout.dataAddress Cursor.firstRecord = [] ∧
      vacantIn layout m layout.dataAddress Cursor.firstRecord = Cursor.firstRecord :=
    nodesFrom_zero fun x _ hx => formatted.zero x hx
  exact ⟨by rw [entries_cons, hnodes]; rfl, hvacant⟩

/-- Clearing blocks leaves zeros there and all else as it was. -/
theorem clearBlocks_ends (blockSize count address : Nat)
    (h : address + count * blockSize ≤ size) :
    (clearBlocks blockSize count address : Edit σ Unit).Ends size m fun r m' =>
      (r = .ok () ∧ (∀ x, address ≤ x → x < address + count * blockSize → m' x = 0) ∧
        ∀ x, x < address ∨ address + count * blockSize ≤ x → m' x = m x) ∨
      ∃ e, r = .error e ∧ Fault σ e := by
  induction count generalizing address m with
  | zero => exact .pure (.inl ⟨rfl, fun x hx hlt => by omega, fun x _ => rfl⟩)
  | succ count ih =>
    rw [Nat.succ_mul] at h ⊢
    refine .write_bind (by rw [Bytes.size_zeros]; omega) (fun e he => .inr ⟨e, rfl, he⟩) ?_
    refine (ih (address + blockSize) (by omega)).mono ?_
    rintro r m' (⟨rfl, hzero, hsame⟩ | ⟨e, rfl, he⟩)
    · refine .inl ⟨rfl, fun x hx hlt => ?_, fun x hx => ?_⟩
      · by_cases hfirst : x < address + blockSize
        · rw [hsame x (.inl hfirst),
            Content.put_inside m hx (by rw [Bytes.size_zeros]; exact hfirst), Bytes.get_zeros]
        · exact hzero x (by omega) (by omega)
      · rw [hsame x (by omega), Content.put_outside m (by rw [Bytes.size_zeros]; omega)]
    · exact .inr ⟨e, rfl, he⟩

/-- Where the bitmap is zero nothing is marked. -/
theorem marked_of_zero (regular : layout.Regular)
    (h : ∀ x, layout.bitmapAddress ≤ x → x < layout.dataAddress → m x = 0) :
    marked layout m = ∅ := by
  have hbits := regular.bitmapBits_eq
  refine Finset.eq_empty_of_forall_notMem fun a ha => ?_
  obtain ⟨i, hi, hbit, -⟩ := mem_marked.mp ha
  rw [bit, h _ (by omega) (by omega), hasBit] at hbit
  simp at hbit

theorem of_rootOnly {names : List String} {branch : Branch}
    (h : rootOnly layout names = some branch) :
    names = [] ∧ branch = ⟨Node.root layout, [layout.dataAddress]⟩ := by
  unfold rootOnly at h
  split at h
  · rename_i hnames
    exact ⟨hnames, (Option.some.inj h).symm⟩
  · cases h

/-- A marked zero block is a root without entries. -/
theorem mapped_rootOnly (regular : layout.Regular)
    (unused : Unused layout m (fun _ => none) layout.dataAddress) :
    Mapped layout m (rootOnly layout) where
  root := ⟨_, rfl⟩
  intact h := by
    obtain ⟨rfl, rfl⟩ := of_rootOnly h
    exact unused.intact regular
  first h := by
    obtain ⟨rfl, rfl⟩ := of_rootOnly h
    rfl
  apart h h' _ _ := by
    rw [(of_rootOnly h).1, (of_rootOnly h').1]
  child names name := by
    rw [rootOnly, if_neg (by simp), Option.map_none]
    rcases hbranch : rootOnly layout names with _ | branch
    · rfl
    · obtain ⟨rfl, rfl⟩ := of_rootOnly hbranch
      rw [Option.bind_some, Branch.children, unused.entries_eq]
      rfl
  orderly h _ := by
    obtain ⟨rfl, rfl⟩ := of_rootOnly h
    exact unused.orderly
  zero h hkind := by
    obtain ⟨rfl, rfl⟩ := of_rootOnly h
    exact absurd rfl hkind

/-- What the superblock of a new volume says. -/
theorem newSuperblock_fields {superblock : Superblock}
    (h : newSuperblock size blockSize = .ok superblock) :
    isBlockSize blockSize.toNat ∧ superblock.blockSize = blockSize ∧
      superblock.blockCount.toNat = size / blockSize.toNat := by
  unfold newSuperblock at h
  split at h
  · cases h
  · rename_i hsize
    split at h
    · cases h
    · rename_i hlt
      obtain rfl := Except.ok.inj h
      exact ⟨by simpa using hsize, rfl, UInt32.toNat_ofNat_of_lt' (Nat.lt_of_not_le hlt)⟩

/-- The last two writes of formatting: the root is cleared, and the superblock counts it. -/
theorem formatted_put (regular : layout.Regular) (hfits : layout.endAddress ≤ size)
    (hmarked : marked layout m = insert layout.dataAddress ∅) {superblock : Superblock}
    (hsize : isBlockSize superblock.blockSize.toNat)
    (hlayout : Layout.ofSuperblock superblock blockSize = .ok layout)
    (hcount : superblock.allocCount = 1) :
    Formatted layout blockSize size
      ((m.put layout.dataAddress (Bytes.zeros layout.blockSize)).put layout.superblockAddress
        superblock.encode) := by
  have hspare := regular.spare_end
  have hbitmap := regular.bitmap_lt_data
  have hge := regular.blockSize_ge
  have hencoded := Superblock.size_encode superblock
  have hlength : Superblock.encodedSize = 18 := rfl
  have hoffset : Superblock.allocCountOffset = 14 := rfl
  generalize hcleared : m.put layout.dataAddress (Bytes.zeros layout.blockSize) = cleared
  generalize hm' : cleared.put layout.superblockAddress superblock.encode = m'
  have hsuperblock : ∀ i < Superblock.encodedSize,
      m' (layout.superblockAddress + i) = Bytes.get superblock.encode i := by
    intro i hi
    rw [← hm', Content.put_add cleared (by omega)]
  have hbehind : ∀ x, layout.bitmapAddress ≤ x → m' x = cleared x := by
    intro x hx
    rw [← hm', Content.put_outside cleared (by omega)]
  have hmarked' : marked layout m' = {layout.dataAddress} := by
    rw [marked_congr (m := m) regular fun x hle hlt => ?_, hmarked]
    · rfl
    · rw [hbehind x hle, ← hcleared, Content.put_outside m (.inl hlt)]
  have hzero : ∀ x, layout.InBlock layout.dataAddress x → m' x = 0 := by
    intro x hx
    rw [hbehind x (by have := hx.1; omega), ← hcleared,
      Content.put_inside m hx.1 (by rw [Bytes.size_zeros]; exact hx.2), Bytes.get_zeros]
  refine ⟨regular, hfits, ⟨superblock, ?_, hlayout⟩, ?_, hmarked', ?_, hzero, ?_⟩
  · refine Superblock.decode_encode hsize (by rw [Content.size_window]; omega) fun i hi => ?_
    rw [Content.get_window m' (by omega), hsuperblock i hi]
  · exact mapped_rootOnly regular ⟨by simp [hmarked'], by simp, hzero⟩
  · have hnumber : Block.counter layout m' = Bytes.number superblock.encode 14 4 := by
      rw [Block.counter, ← Content.number_window_zero, Block.counterAddress]
      refine Bytes.number_congr fun k hk => ?_
      rw [Content.get_window m' (by omega), Nat.zero_add, Nat.add_assoc,
        hsuperblock _ (by omega), hoffset]
    rw [hnumber, (Superblock.get_encode superblock).2.2.2.2, hcount]
    rfl
  · obtain ⟨hblockSize, -, hblockCount, -⟩ := ofSuperblock_fields hlayout
    intro i hi
    rw [hsuperblock i hi, ← hblockSize, hblockCount, UInt32.ofNat_toNat, ← hcount]

/-- The layout that a store of a size gets. -/
def layoutFor (size : Nat) (blockSize : UInt32) : Except Error Layout := do
  Layout.ofSuperblock (← newSuperblock size blockSize) blockSize

/-- The layout that a store gets is that of a superblock that fills the store. -/
theorem of_layoutFor (h : layoutFor size blockSize = .ok layout) :
    ∃ superblock, newSuperblock size blockSize = .ok superblock ∧
      Layout.ofSuperblock superblock blockSize = .ok layout ∧ layout.Regular ∧
      layout.endAddress ≤ size := by
  rcases hsuperblock : newSuperblock size blockSize with e | superblock
  · rw [layoutFor, hsuperblock] at h
    cases h
  rw [layoutFor, hsuperblock] at h
  obtain ⟨hsize, -, hfilled⟩ := newSuperblock_fields hsuperblock
  obtain ⟨-, hblockSize, hcount, -⟩ := ofSuperblock_fields h
  refine ⟨superblock, rfl, h, Layout.regular_of_ofSuperblock hsize h, ?_⟩
  rw [Layout.endAddress, hblockSize, hcount, hfilled]
  exact Nat.div_mul_le_self ..

/-- Writing the bitmap, the root and the superblock of a layout makes a new volume of it. -/
theorem install_ends (regular : layout.Regular) (hfits : layout.endAddress ≤ size)
    {superblock : Superblock} (hsize : isBlockSize superblock.blockSize.toNat)
    (hlayout : Layout.ofSuperblock superblock blockSize = .ok layout) :
    (do
      Store.write layout.superblockAddress (Bytes.zeros layout.blockSize)
      clearBlocks layout.blockSize layout.bitmapBlocks layout.bitmapAddress
      let _ ← Bitmap.allocate layout layout.dataAddress
      Store.write layout.dataAddress (Bytes.zeros layout.blockSize)
      Store.write layout.superblockAddress { superblock with allocCount := 1 }.encode
      Store.flush
      return layout : Edit σ Layout).Ends size m fun r m' =>
      r = .ok layout ∧ Formatted layout blockSize size m' ∨ ∃ e, r = .error e ∧ Fault σ e := by
  have hspare := regular.spare_end
  have hbitmap := regular.bitmap_lt_data
  have hdata := regular.data_eq
  have hend := regular.data_le_end
  have hge := regular.blockSize_ge
  refine .write_bind (by rw [Bytes.size_zeros]; omega) (fun e he => .inr ⟨e, rfl, he⟩) ?_
  refine .bind (clearBlocks_ends layout.blockSize layout.bitmapBlocks layout.bitmapAddress
    (by omega)) ?_ ?_
  · rintro e m' (⟨hr, -⟩ | ⟨e', hr, he⟩)
    · cases hr
    · cases hr
      exact .inr ⟨e, rfl, he⟩
  rintro ⟨⟩ m₁ (⟨-, hzero, -⟩ | ⟨e, hr, -⟩)
  swap
  · cases hr
  rw [← hdata] at hzero
  refine .bind (assign_ends regular hfits regular.data_mem_covered true) ?_ ?_
  · rintro e m' (⟨hr, -⟩ | ⟨e', hr, he, -⟩)
    · cases hr
    · cases hr
      exact .inr ⟨e, rfl, he⟩
  rintro wasAllocated m₂ (⟨-, rfl⟩ | ⟨e, hr, -⟩)
  swap
  · cases hr
  -- the bitmap was cleared, so the root is the only block that is marked now
  have hmarked := marked_assigned (m := m₁) regular regular.data_mem_covered true
  rw [if_pos rfl, marked_of_zero regular hzero] at hmarked
  generalize assigned layout m₁ layout.dataAddress true = m₂ at hmarked ⊢
  refine .write_bind (by rw [Bytes.size_zeros]; omega) (fun e he => .inr ⟨e, rfl, he⟩) ?_
  refine .write_bind ?_ (fun e he => .inr ⟨e, rfl, he⟩) ?_
  · rw [Superblock.size_encode, Superblock.encodedSize]
    omega
  generalize hcounted : ({ superblock with allocCount := 1 } : Superblock) = counted
  have hformatted : Formatted layout blockSize size
      ((m₂.put layout.dataAddress (Bytes.zeros layout.blockSize)).put layout.superblockAddress
        counted.encode) := by
    subst hcounted
    exact formatted_put regular hfits hmarked hsize hlayout rfl
  generalize (m₂.put layout.dataAddress (Bytes.zeros layout.blockSize)).put
    layout.superblockAddress counted.encode = m₄ at hformatted
  have hflush : (Store.flush : Edit σ Unit).Ends size m₄ fun r m' =>
      r = .ok () ∧ m' = m₄ ∨ ∃ e, r = .error e ∧ Fault σ e :=
    .flush (.inl ⟨rfl, rfl⟩) fun e he => .inr ⟨e, rfl, he⟩
  refine .bind hflush ?_ ?_
  · rintro e m' (⟨hr, -⟩ | ⟨e', hr, he⟩)
    · cases hr
    · cases hr
      exact .inr ⟨e, rfl, he⟩
  rintro ⟨⟩ m' (⟨-, rfl⟩ | ⟨e, hr, -⟩)
  · exact .pure (.inl ⟨rfl, hformatted⟩)
  · cases hr

/-- Formatting answers the layout for the size of the store, or why there is none. If there is one,
the store holds a volume with an empty root and nothing else then. -/
theorem format_ends (blockSize : UInt32) :
    (format blockSize : Edit σ Layout).Ends size m fun r m' =>
      (r = layoutFor size blockSize ∧
        ∀ layout, r = .ok layout → Formatted layout blockSize size m') ∨
      ∃ e, r = .error e ∧ Fault σ e := by
  rcases hsuperblock : newSuperblock size blockSize with e | superblock
  · refine .ask_bind_error (e := e) ?_ (.inl ⟨?_, fun layout hr => by cases hr⟩)
    · rintro store rfl -
      exact hsuperblock
    · rw [layoutFor, hsuperblock]
      rfl
  refine .ask_bind (a := superblock) ?_ ?_
  · rintro store rfl -
    exact hsuperblock
  obtain ⟨hsize, hconfigured, hcount⟩ := newSuperblock_fields hsuperblock
  have hfor : layoutFor size blockSize = Layout.ofSuperblock superblock blockSize := by
    rw [layoutFor, hsuperblock]
    rfl
  rcases hlayout : Layout.ofSuperblock superblock blockSize with e | layout
  · exact .ofExcept_bind_error rfl (.inl ⟨hfor ▸ hlayout.symm, fun layout hr => by cases hr⟩)
  have regular := Layout.regular_of_ofSuperblock hsize hlayout
  obtain ⟨-, hblockSize, hblockCount, -⟩ := ofSuperblock_fields hlayout
  have hfits : layout.endAddress ≤ size := by
    rw [Layout.endAddress, hblockSize, hblockCount, hcount]
    exact Nat.div_mul_le_self ..
  refine .ofExcept_bind rfl
    ((install_ends regular hfits (hconfigured ▸ hsize) hlayout).mono ?_)
  rintro r m' (⟨rfl, hformatted⟩ | ⟨e, rfl, he⟩)
  · refine .inl ⟨(hfor.trans hlayout).symm, fun layout' hr => ?_⟩
    obtain rfl := Except.ok.inj hr
    exact hformatted
  · exact .inr ⟨e, rfl, he⟩

/-- A store that was formatted holds a new volume. -/
theorem formatted_of_ok {store after : σ} (h : format blockSize store = .ok layout after) :
    Store.size after = Store.size store ∧
      Formatted layout blockSize (Store.size store) (content after) := by
  obtain ⟨hsize, ⟨-, hformatted⟩ | ⟨e, hr, -⟩⟩ := (format_ends blockSize).of_ok rfl rfl h
  · exact ⟨hsize, hformatted layout rfl⟩
  · cases hr

/-- Formatting does not resize a store, so the new volume is one of the store's own size. -/
theorem formatted_of_format {store after : σ} (h : format blockSize store = .ok layout after) :
    Formatted layout blockSize (Store.size after) (content after) := by
  obtain ⟨hsize, formatted⟩ := formatted_of_ok h
  rwa [hsize]

/-- What was formatted had room for its layout. -/
theorem layoutFor_of_ok {store after : σ} (h : format blockSize store = .ok layout after) :
    layoutFor (Store.size store) blockSize = .ok layout := by
  have hends : (format blockSize : Edit σ Layout).Ends (Store.size store) (content store) _ :=
    format_ends blockSize
  obtain ⟨-, ⟨hlayout, -⟩ | ⟨e, hr, -⟩⟩ := hends.of_ok rfl rfl h
  · exact hlayout.symm
  · cases hr

/-- A store with room for a volume can be formatted. -/
theorem format_eq {τ : Type} [Store τ] [Reliable τ] {store : τ}
    (h : layoutFor (Store.size store) blockSize = .ok layout) :
    format blockSize store = .ok layout ((format blockSize).outcome store).2 := by
  have hends : (format blockSize : Edit τ Layout).Ends (Store.size store) (content store) _ :=
    format_ends blockSize
  rcases hr : (format blockSize : Edit τ Layout) store with ⟨layout', after⟩ | ⟨e, after⟩
  · obtain ⟨-, ⟨hlayout, -⟩ | ⟨e, hr', -⟩⟩ := hends.of_ok rfl rfl hr
    · obtain rfl := Except.ok.inj (hlayout.trans h)
      rw [Edit.outcome, hr]
    · cases hr'
  · obtain ⟨-, ⟨hlayout, -⟩ | ⟨e', -, he⟩⟩ := hends.of_error rfl rfl hr
    · rw [h] at hlayout
      cases hlayout
    · exact absurd he (Reliable.not_fault e')

/-! ## The smallest volume -/

/-- The layout of the fewest blocks of 512 bytes that make a volume. -/
def smallest : Layout where
  blockSize := 512
  blockCount := 8195
  superblockAddress := 2097152
  bitmapAddress := 2098176
  dataAddress := 2098688

/-- A store in memory that is all zero. -/
def blank (size : Nat) : Memory :=
  ⟨Bytes.zeros size⟩

@[simp] theorem size_blank (size : Nat) : Store.size (blank size) = size :=
  Bytes.size_zeros size

theorem format_blank : ∃ volume, format 512 (blank 4195840) = .ok smallest volume := by
  refine ⟨_, format_eq ?_⟩
  rw [size_blank]
  decide

end ChainFs.Volume
