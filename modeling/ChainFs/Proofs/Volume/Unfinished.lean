import ChainFs.Proofs.Volume.Format

/-!
# Formatting that is cut off

Formatting comes to a fixed run of writes: the old superblock is erased, the bitmap and the root are
laid out anew, and the new superblock is the last of them. A store that is cut off in between holds
no volume, whatever it held before.

* `Store.writeAll`, `Content.putAll` — a run of writes, on a store and on what it holds;
* `Store.writeAll_limited` — a store that takes fewer writes than there are gets the first ones;
* `Volume.formatWrites` — the writes of formatting, and `Volume.format_outcome`: there are no
  others;
* `Volume.load_of_format_cut` — the new volume opens after the last of these writes, and after
  fewer of them there is no volume that opens.

A limit on writes cuts a list of writes, and all that matters of a list is whether its last element
is in it. So the proof never comes to the single steps of formatting once they are known to be these
writes.
-/

namespace ChainFs

/-! ## Runs of writes -/

namespace Content

/-- The content with byte strings written over it, one after the other. -/
def putAll : Content → List (Nat × ByteArray) → Content
  | m, [] => m
  | m, (offset, bytes) :: rest => putAll (m.put offset bytes) rest

/-- A byte is zero after writes that only bring zeros to it, if they reach it at all or it was zero
before. -/
theorem putAll_zero {m : Content} {writes : List (Nat × ByteArray)} {x : Nat}
    (hzero : ∀ write ∈ writes, write.1 ≤ x → x < write.1 + write.2.size →
      Bytes.get write.2 (x - write.1) = 0)
    (hreached : m x = 0 ∨ ∃ write ∈ writes, write.1 ≤ x ∧ x < write.1 + write.2.size) :
    m.putAll writes x = 0 := by
  induction writes generalizing m with
  | nil => exact hreached.resolve_right (by simp)
  | cons write rest ih =>
    obtain ⟨hhead, hrest⟩ := List.forall_mem_cons.mp hzero
    refine ih hrest ?_
    by_cases hx : write.1 ≤ x ∧ x < write.1 + write.2.size
    · refine .inl ?_
      rw [put_inside m hx.1 hx.2]
      exact hhead hx.1 hx.2
    · rw [put_outside m (by omega)]
      refine hreached.imp_right fun ⟨other, hmem, hother⟩ => ?_
      rcases List.mem_cons.mp hmem with rfl | hmem
      · exact absurd hother hx
      · exact ⟨other, hmem, hother⟩

end Content

namespace Store

variable {σ : Type} [Store σ]

/-- Carries out writes one after the other. -/
def writeAll : List (Nat × ByteArray) → Edit σ Unit
  | [] => pure ()
  | (offset, bytes) :: rest => do
    Store.write offset bytes
    writeAll rest

theorem writeAll_append (front rest : List (Nat × ByteArray)) :
    (writeAll (front ++ rest) : Edit σ Unit) = (do writeAll front; writeAll rest) := by
  induction front with
  | nil => exact (pure_bind () fun _ => writeAll rest).symm
  | cons write front ih =>
    obtain ⟨offset, bytes⟩ := write
    change (Store.write offset bytes >>= fun _ => writeAll (front ++ rest))
      = (Store.write offset bytes >>= fun _ => writeAll front) >>= fun _ => writeAll rest
    rw [ih, bind_assoc]

/-- Every write lies inside a store of a size. -/
def Fit (size : Nat) (writes : List (Nat × ByteArray)) : Prop :=
  ∀ write ∈ writes, write.1 + write.2.size ≤ size

/-- A run of writes leaves them all in the store, or it stops at a fault. -/
theorem writeAll_ends [Faithful σ] {size : Nat} {m : Content} {writes : List (Nat × ByteArray)}
    (h : Fit size writes) :
    (writeAll writes : Edit σ Unit).Ends size m fun r m' =>
      r = .ok () ∧ m' = m.putAll writes ∨ ∃ e, r = .error e ∧ Fault σ e := by
  induction writes generalizing m with
  | nil => exact .pure (.inl ⟨rfl, rfl⟩)
  | cons write rest ih =>
    obtain ⟨hhead, hrest⟩ := List.forall_mem_cons.mp h
    exact .write_bind hhead (fun e he => .inr ⟨e, rfl, he⟩) (ih hrest)

/-- What a run of writes that came to its end has left. -/
theorem content_of_writeAll [Faithful σ] {store after : σ} {writes : List (Nat × ByteArray)}
    (hfit : Fit (Store.size store) writes)
    (h : (writeAll writes).outcome store = (.ok (), after)) :
    Store.size after = Store.size store ∧ content after = (content store).putAll writes := by
  have hends : (writeAll writes : Edit σ Unit).Ends (Store.size store) (content store) _ :=
    writeAll_ends hfit
  obtain ⟨hsize, ⟨-, hcontent⟩ | ⟨e, he, -⟩⟩ := h ▸ hends.outcome rfl rfl
  · exact ⟨hsize, hcontent⟩
  · cases he

theorem content_of_flush [Faithful σ] {store after : σ}
    (h : (Store.flush : Edit σ Unit).outcome store = (.ok (), after)) :
    content after = content store := by
  have hends : (Store.flush : Edit σ Unit).Ends (Store.size store) (content store) fun r m' =>
      r = .ok () → m' = content store :=
    .flush (fun _ => rfl) fun e _ he => by cases he
  exact (h ▸ (hends.outcome rfl rfl).2) rfl

namespace Limited

theorem outcome_write_zero (offset : Nat) (bytes : ByteArray) (store : σ) :
    (Store.write offset bytes : Edit (Limited σ) Unit).outcome ⟨store, 0⟩
      = (.error exhausted, ⟨store, 0⟩) :=
  rfl

/-- As long as writes are left, one takes place as on the store below. -/
theorem outcome_write_succ (offset : Nat) (bytes : ByteArray) (store : σ) (left : Nat) :
    (Store.write offset bytes : Edit (Limited σ) Unit).outcome ⟨store, left + 1⟩
      = (((Store.write offset bytes : Edit σ Unit).outcome store).1,
        ⟨((Store.write offset bytes : Edit σ Unit).outcome store).2, left⟩) := by
  have hwrite : (Store.write offset bytes : Edit (Limited σ) Unit) ⟨store, left + 1⟩
      = (Store.write offset bytes : Edit σ Unit).inside store (⟨·, left⟩) := rfl
  exact Edit.outcome_of_inside hwrite

theorem outcome_flush (store : σ) (left : Nat) :
    (Store.flush : Edit (Limited σ) Unit).outcome ⟨store, left⟩
      = (((Store.flush : Edit σ Unit).outcome store).1,
        ⟨((Store.flush : Edit σ Unit).outcome store).2, left⟩) := by
  have hflush : (Store.flush : Edit (Limited σ) Unit) ⟨store, left⟩
      = (Store.flush : Edit σ Unit).inside store (⟨·, left⟩) := rfl
  exact Edit.outcome_of_inside hflush

end Limited

/-- **A run of writes that is cut off.** If the store takes all of them, a limit that is no less
than their number makes no difference. With a lower limit it takes the first ones, as many as the
limit allows, and the run fails. -/
theorem writeAll_limited {writes : List (Nat × ByteArray)} {store after : σ}
    (h : (writeAll writes).outcome store = (.ok (), after)) (k : Nat) :
    (k < writes.length → ∃ cut, (writeAll (writes.take k)).outcome store = (.ok (), cut) ∧
      (writeAll writes).outcome (⟨store, k⟩ : Limited σ)
        = (.error Limited.exhausted, ⟨cut, 0⟩)) ∧
    (writes.length ≤ k → (writeAll writes).outcome (⟨store, k⟩ : Limited σ)
      = (.ok (), ⟨after, k - writes.length⟩)) := by
  induction writes generalizing store k with
  | nil =>
    obtain rfl : store = after := congrArg Prod.snd h
    exact ⟨fun hk => absurd hk (Nat.not_lt_zero k), fun _ => rfl⟩
  | cons write rest ih =>
    obtain ⟨offset, bytes⟩ := write
    obtain ⟨⟨⟩, next, hwrite, hrest⟩ := Edit.of_outcome_bind h
    cases k with
    | zero =>
      refine ⟨fun _ => ⟨store, rfl, ?_⟩, fun hk => absurd hk (Nat.not_succ_le_zero _)⟩
      rw [writeAll, Edit.outcome_bind, Limited.outcome_write_zero]
    | succ k =>
      obtain ⟨hcut, hdone⟩ := ih hrest k
      have hlimited : (writeAll ((offset, bytes) :: rest)).outcome (⟨store, k + 1⟩ : Limited σ)
          = (writeAll rest).outcome (⟨next, k⟩ : Limited σ) := by
        rw [writeAll, Edit.outcome_bind, Limited.outcome_write_succ, hwrite]
      rw [hlimited, List.length_cons, Nat.add_lt_add_iff_right, Nat.add_le_add_iff_right,
        Nat.add_sub_add_right]
      refine ⟨fun hk => ?_, hdone⟩
      obtain ⟨cut, htaken, hfailed⟩ := hcut hk
      refine ⟨cut, ?_, hfailed⟩
      rw [List.take_succ_cons, writeAll, Edit.outcome_bind, hwrite, ← htaken]

end Store

namespace Volume

open Store Bitmap

variable {σ : Type} [Store σ] {layout : Layout} {blockSize : UInt32}

/-! ## The writes of formatting -/

/-- Zeros for `count` blocks from an address on. -/
def clearings (blockSize count address : Nat) : List (Nat × ByteArray) :=
  (List.range' address count blockSize).map (·, Bytes.zeros blockSize)

/-- The writes that erase what was there: the superblock, then the bitmap. -/
def erasures (layout : Layout) : List (Nat × ByteArray) :=
  (layout.superblockAddress, Bytes.zeros layout.blockSize) ::
    clearings layout.blockSize layout.bitmapBlocks layout.bitmapAddress

/-- The writes that make an empty root: its bit in the bitmap, which is zero apart from it, and its
block. -/
def rootWrites (layout : Layout) : List (Nat × ByteArray) :=
  [(layout.bitmapAddress, blockWithBit (Bytes.zeros layout.blockSize) 0 0 true),
    (layout.dataAddress, Bytes.zeros layout.blockSize)]

/-- The superblock of a new volume, which counts the root's block. -/
def newest (layout : Layout) : Superblock :=
  ⟨UInt32.ofNat layout.blockSize, UInt32.ofNat layout.blockCount, 1⟩

/-- The writes of formatting, in their order. -/
def formatWrites (layout : Layout) : List (Nat × ByteArray) :=
  erasures layout ++ rootWrites layout ++ [(layout.superblockAddress, (newest layout).encode)]

@[simp] theorem length_formatWrites (layout : Layout) :
    (formatWrites layout).length = layout.bitmapBlocks + 4 := by
  simp [formatWrites, erasures, rootWrites, clearings]

theorem clearBlocks_eq (blockSize count address : Nat) :
    (clearBlocks blockSize count address : Edit σ Unit)
      = writeAll (clearings blockSize count address) := by
  induction count generalizing address with
  | zero => rfl
  | succ count ih =>
    rw [clearBlocks, ih]
    rfl

theorem mem_clearings {blockSize count address : Nat} {write : Nat × ByteArray}
    (h : write ∈ clearings blockSize count address) :
    ∃ i < count, write = (address + i * blockSize, Bytes.zeros blockSize) := by
  obtain ⟨a, ha, rfl⟩ := List.mem_map.mp h
  obtain ⟨i, hi, rfl⟩ := List.mem_range'.mp ha
  exact ⟨i, hi, by rw [Nat.mul_comm]⟩

/-- Behind the erased superblock everything is written from the bitmap up to the root's block, until
the new superblock is. -/
theorem bounds_of_mem_writes (regular : layout.Regular) {write : Nat × ByteArray}
    (h : write ∈ clearings layout.blockSize layout.bitmapBlocks layout.bitmapAddress
      ++ rootWrites layout) :
    layout.bitmapAddress ≤ write.1 ∧
      write.1 + write.2.size ≤ layout.dataAddress + layout.blockSize := by
  have hdata := regular.data_eq
  have hbitmap := regular.bitmap_lt_data
  rcases List.mem_append.mp h with hclear | hroot
  · obtain ⟨i, hi, rfl⟩ := mem_clearings hclear
    have hrow := Nat.mul_le_mul_right layout.blockSize (Nat.le_of_lt hi)
    rw [Bytes.size_zeros]
    omega
  · simp only [rootWrites, List.mem_cons, List.not_mem_nil, or_false] at hroot
    rcases hroot with rfl | rfl
    · rw [size_blockWithBit, Bytes.size_zeros]
      omega
    · rw [Bytes.size_zeros]
      omega

/-- All of the writes lie inside the volume. -/
theorem fit_formatWrites (regular : layout.Regular) {size : Nat}
    (hfits : layout.endAddress ≤ size) : Fit size (formatWrites layout) := by
  have hspare := regular.spare_end
  have hbitmap := regular.bitmap_lt_data
  have hend := regular.data_le_end
  have hge := regular.blockSize_ge
  intro write h
  rcases List.mem_append.mp h with hfront | hlast
  · rcases List.mem_cons.mp hfront with rfl | hbetween
    · rw [Bytes.size_zeros]
      omega
    · have hbounds := bounds_of_mem_writes regular hbetween
      omega
  · obtain rfl := List.mem_singleton.mp hlast
    have hlength : Superblock.encodedSize = 18 := rfl
    rw [Superblock.size_encode]
    omega

theorem fit_erasures (regular : layout.Regular) {size : Nat}
    (hfits : layout.endAddress ≤ size) : Fit size (erasures layout) := by
  intro write h
  refine fit_formatWrites regular hfits write ?_
  rw [formatWrites, List.append_assoc]
  exact List.mem_append_left _ h

/-- The first block of the bitmap is erased. -/
theorem putAll_erasures (regular : layout.Regular) {m : Content} {x : Nat}
    (hle : layout.bitmapAddress ≤ x) (hlt : x < layout.bitmapAddress + layout.blockSize) :
    m.putAll (erasures layout) x = 0 := by
  refine Content.putAll_zero (fun write h _ _ => ?_) (.inr ?_)
  · rcases List.mem_cons.mp h with rfl | h
    · exact Bytes.get_zeros ..
    · obtain ⟨i, -, rfl⟩ := mem_clearings h
      exact Bytes.get_zeros ..
  · refine ⟨(layout.bitmapAddress, Bytes.zeros layout.blockSize), ?_, hle, ?_⟩
    · refine List.mem_cons_of_mem _ (List.mem_map.mpr ⟨_, List.mem_range'.mpr ⟨0, ?_, ?_⟩, rfl⟩)
      · exact regular.bitmapBlocks_pos
      · rfl
    · rw [Bytes.size_zeros]
      exact hlt

section Run

variable [Faithful σ]

/-- In an erased bitmap the root's bit is set by writing a block that is zero apart from it. -/
theorem allocate_root (regular : layout.Regular) {store : σ}
    (hfits : layout.endAddress ≤ Store.size store)
    (hzero : ∀ i < layout.blockSize, content store (layout.bitmapAddress + i) = 0) :
    (Bitmap.allocate layout layout.dataAddress).outcome store
      = (do
          Store.write layout.bitmapAddress (blockWithBit (Bytes.zeros layout.blockSize) 0 0 true)
          return false : Edit σ Bool).outcome store := by
  have hroot : layout.dataBlock 0 = layout.dataAddress := by simp [Layout.dataBlock]
  have hbitmap := regular.bitmap_lt_data
  have hend := regular.data_le_end
  obtain ⟨⟨block, byte, bit⟩, hlocate, hbyte, hlt, hge, hrow, hbit⟩ :=
    locate_eq regular regular.bitmapBits_pos
  dsimp only at hbyte hlt hge hrow hbit
  obtain ⟨rfl, rfl, rfl⟩ : block = layout.bitmapAddress ∧ byte = 0 ∧ bit = 0 := by omega
  have hwindow : (content store).window layout.bitmapAddress layout.blockSize
      = Bytes.zeros layout.blockSize := by
    refine Bytes.ext_get (by simp) fun i hi => ?_
    rw [Content.size_window] at hi
    rw [Content.get_window _ hi, hzero i hi, Bytes.get_zeros]
  have hread : Store.read store layout.bitmapAddress layout.blockSize
      = .ok (Bytes.zeros layout.blockSize) := by
    rw [Store.read_eq (by omega), hwindow]
  rw [hroot] at hlocate
  rw [Bitmap.allocate, Bitmap.assign, Edit.outcome_bind, Edit.ofExcept, Edit.outcome_ask, hlocate]
  dsimp only
  rw [Edit.outcome_bind, Edit.outcome_ask, hread]
  dsimp only
  rw [Bytes.get_zeros]
  rfl

/-- **Formatting comes to its writes.** On a store that has room for a volume, formatting does these
writes in this order, and then makes them durable. -/
theorem format_outcome {store : σ} (h : layoutFor (Store.size store) blockSize = .ok layout) :
    (format blockSize).outcome store
      = (do
          writeAll (formatWrites layout)
          Store.flush
          return layout : Edit σ Layout).outcome store := by
  obtain ⟨superblock, hsuperblock, hlayout, regular, hfits⟩ := of_layoutFor h
  have hfit := fit_formatWrites regular hfits
  have hbitmap := regular.bitmap_lt_data
  obtain ⟨hsame, hblockSize, hcount, -⟩ := ofSuperblock_fields hlayout
  have hnewest : { superblock with allocCount := 1 } = newest layout := by
    rw [newest, hblockSize, hcount, ← hsame, UInt32.ofNat_toNat, UInt32.ofNat_toNat]
  rw [format, Edit.outcome_bind, Edit.outcome_ask, hsuperblock]
  dsimp only
  rw [Edit.outcome_bind, Edit.ofExcept, Edit.outcome_ask, hlayout]
  dsimp only
  -- erasing is the first part of both, and it leaves an empty bitmap
  have hwrites : (writeAll (formatWrites layout) : Edit σ Unit) = (do
      writeAll (erasures layout)
      writeAll (rootWrites layout ++ [(layout.superblockAddress, (newest layout).encode)])) := by
    rw [formatWrites, List.append_assoc, writeAll_append]
  have herasures : (writeAll (erasures layout) : Edit σ Unit) = (do
      Store.write layout.superblockAddress (Bytes.zeros layout.blockSize)
      clearBlocks layout.blockSize layout.bitmapBlocks layout.bitmapAddress) := by
    rw [clearBlocks_eq]
    rfl
  rw [hnewest, hwrites, bind_assoc, ← bind_assoc, ← herasures]
  refine Edit.outcome_bind_congr fun _ next hnext => ?_
  obtain ⟨hsize, hcontent⟩ := content_of_writeAll (fit_erasures regular hfits) hnext
  rw [Edit.outcome_bind, allocate_root regular (hsize ▸ hfits) ?_, ← Edit.outcome_bind]
  · simp only [rootWrites, List.cons_append, List.nil_append, writeAll, bind_assoc, pure_bind]
  · intro i hi
    rw [hcontent, putAll_erasures regular (by omega) (by omega)]

/-! ## Cutting it off -/

omit [Store σ] [Faithful σ] in
/-- Until the new superblock is written, the place of the old one is zero. -/
theorem putAll_take_zero (regular : layout.Regular) {m : Content} {k : Nat} (hpos : 0 < k)
    (hlt : k < (formatWrites layout).length) :
    m.putAll ((formatWrites layout).take k) layout.superblockAddress = 0 := by
  have hspare := regular.spare_end
  have hge := regular.blockSize_ge
  have hfront : (formatWrites layout).take k = (erasures layout ++ rootWrites layout).take k := by
    refine List.take_append_of_le_length ?_
    rw [formatWrites, List.length_append, List.length_singleton] at hlt
    exact Nat.le_of_lt_succ hlt
  obtain ⟨j, rfl⟩ := Nat.exists_eq_succ_of_ne_zero (Nat.pos_iff_ne_zero.mp hpos)
  rw [hfront, erasures, List.cons_append, List.take_succ_cons]
  refine Content.putAll_zero (fun write hmem hle _ => ?_) (.inr ⟨_, List.mem_cons_self, ?_⟩)
  · rcases List.mem_cons.mp hmem with rfl | hbetween
    · exact Bytes.get_zeros ..
    · -- everything else is written behind the superblock
      have hbounds := bounds_of_mem_writes regular (List.mem_of_mem_take hbetween)
      omega
  · rw [Bytes.size_zeros]
    omega

/-- A store without a signature is no volume. -/
theorem load_of_erased (regular : layout.Regular) {store : σ}
    (hblockSize : layout.blockSize = blockSize.toNat) (hfits : layout.endAddress ≤ Store.size store)
    (hzero : content store layout.superblockAddress = 0) :
    load store blockSize = .error (.invalidImage .badSignature) := by
  have hspare := regular.spare_end
  have hbitmap := regular.bitmap_lt_data
  have hend := regular.data_le_end
  have hge := regular.blockSize_ge
  have haddress : Layout.superblockAddressFor blockSize.toNat = layout.superblockAddress := by
    rw [regular.superblock_eq, hblockSize]
    rfl
  have hlength : Superblock.encodedSize = 18 := rfl
  have hdecode : Superblock.decode
      ((content store).window layout.superblockAddress layout.blockSize)
        = .error (.invalidImage .badSignature) := by
    refine Superblock.decode_of_get_zero (by rw [Content.size_window]; omega) ?_
    rw [Content.get_window _ (by omega), Nat.add_zero, hzero]
    decide
  unfold load superblockAt
  dsimp only
  rw [haddress, ← hblockSize, if_neg (by omega), Store.read_eq (by omega)]
  simp only [bind, Except.bind]
  rw [hdecode]

/-- **A volume that is only partly formatted does not open.** Take a store that can be formatted,
whatever it holds. If it takes only the first `k` writes of formatting, and at least the one that
erases the superblock, what it holds then is no volume. Once it takes all of them the new volume
opens. -/
theorem load_of_format_cut {store formatted : σ}
    (hformat : format blockSize store = .ok layout formatted) (k : Nat) :
    (k < (formatWrites layout).length → ∃ cut,
      (format blockSize).outcome (⟨store, k⟩ : Limited σ) = (.error Limited.exhausted, ⟨cut, 0⟩) ∧
      Store.size cut = Store.size store ∧
      content cut = (content store).putAll ((formatWrites layout).take k) ∧
      (0 < k → load cut blockSize = .error (.invalidImage .badSignature))) ∧
    ((formatWrites layout).length ≤ k →
      (format blockSize).outcome (⟨store, k⟩ : Limited σ)
        = (.ok layout, ⟨formatted, k - (formatWrites layout).length⟩) ∧
      content formatted = (content store).putAll (formatWrites layout) ∧
      load formatted blockSize = .ok layout) := by
  have hlayout := layoutFor_of_ok hformat
  obtain ⟨superblock, -, hsuperblock, regular, hfits⟩ := of_layoutFor hlayout
  obtain ⟨-, hblockSize, -, -⟩ := ofSuperblock_fields hsuperblock
  have hfit := fit_formatWrites regular hfits
  have hrun := format_outcome hlayout
  rw [Edit.outcome, hformat] at hrun
  obtain ⟨⟨⟩, written, hwritten, hrest⟩ := Edit.of_outcome_bind hrun.symm
  obtain ⟨⟨⟩, flushed, hflush, hdone⟩ := Edit.of_outcome_bind hrest
  obtain rfl : flushed = formatted := congrArg Prod.snd hdone
  have hlimited : layoutFor (Store.size (⟨store, k⟩ : Limited σ)) blockSize = .ok layout := hlayout
  rw [format_outcome hlimited, Edit.outcome_bind]
  obtain ⟨hcut, hall⟩ := writeAll_limited hwritten k
  refine ⟨fun hk => ?_, fun hk => ⟨?_, ?_, ?_⟩⟩
  · obtain ⟨cut, htaken, hfailed⟩ := hcut hk
    obtain ⟨hsize, hcontent⟩ := content_of_writeAll
      (fun write hwrite => hfit write (List.mem_of_mem_take hwrite)) htaken
    refine ⟨cut, ?_, hsize, hcontent, fun hpos => ?_⟩
    · rw [hfailed]
    · refine load_of_erased regular hblockSize (hsize ▸ hfits) ?_
      rw [hcontent, putAll_take_zero regular hpos hk]
  · rw [hall hk]
    dsimp only
    rw [Edit.outcome_bind, Limited.outcome_flush, hflush]
    rfl
  · rw [content_of_flush hflush, (content_of_writeAll hfit hwritten).2]
  · obtain ⟨hsize, hformatted⟩ := formatted_of_ok hformat
    exact hformatted.sealed.load_eq regular (hsize ▸ hfits)

/-- A volume on a store of the smallest size is formatted again. It is cut off behind the third of
the five writes, and another time it is not cut off before the last one. -/
theorem load_of_format_cut_again :
    ∃ volume again, format 512 (blank 4195840) = .ok smallest volume ∧
      load volume 512 = .ok smallest ∧ format 512 volume = .ok smallest again ∧
      (∃ cut, (format 512).outcome (⟨volume, 3⟩ : Limited Memory)
          = (.error Limited.exhausted, ⟨cut, 0⟩) ∧
        load cut 512 = .error (.invalidImage .badSignature)) ∧
      (format 512).outcome (⟨volume, 5⟩ : Limited Memory) = (.ok smallest, ⟨again, 0⟩) ∧
      load again 512 = .ok smallest := by
  obtain ⟨volume, hblank⟩ := format_blank
  have hformatted := formatted_of_format hblank
  have hlayout := layoutFor_of_ok hblank
  rw [← (formatted_of_ok hblank).1] at hlayout
  have hformat := format_eq hlayout
  have hlength : (formatWrites smallest).length = 5 := by
    rw [length_formatWrites]
    decide
  obtain ⟨cut, hcut, -, -, hfails⟩ := (load_of_format_cut hformat 3).1 (by omega)
  obtain ⟨hall, -, hopens⟩ := (load_of_format_cut hformat 5).2 (by omega)
  rw [hlength] at hall
  exact ⟨volume, _, hblank, hformatted.sealed.load_eq hformatted.regular hformatted.fits, hformat,
    ⟨cut, hcut, hfails (by decide)⟩, hall, hopens⟩

end Run

end Volume

end ChainFs
