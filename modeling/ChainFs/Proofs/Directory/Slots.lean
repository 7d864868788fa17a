import ChainFs.Directory.Cursor
import ChainFs.Proofs.Content

/-!
# The slots of a directory block

A plain reading of a directory block, slot by slot, without stopping between records.

The length of a slot is given by its name size alone, whether or not it can be read otherwise; so
the places of the slots of a block follow from few of its bytes, and a change of other bytes moves
none of them. This carries the inductions below: two blocks with the same bytes from a place on have
the same slots from there on, and a block that is zero from a place on has none.

* `Slot.decode_congr` — a slot is read from its own bytes only;
* `Slot.of_decode` — what a place holds that reads as a record;
* `Slot.decode_restat` — new bytes for size and mtime change just these in the record read;
* `Slot.decode_encode` — what was encoded is read back, wherever it stands in a block;
* `Directory.slots` — all slots of a block from a place on, `Directory.vacantFrom` — the free place
  behind them.
-/

namespace ChainFs

/-! ## One slot -/

theorem Kind.code_of_ofCode? {code : UInt8} {kind : Kind} (h : ofCode? code = some kind) :
    kind.code = code := by
  unfold ofCode? at h
  split at h
  · cases h
    rfl
  · cases h
    rfl
  · cases h

namespace Slot

variable {blockSize offset length : Nat} {block block' : ByteArray}

/-- How long the name of the record at `offset` is said to be. -/
def nameSize (block : ByteArray) (offset : Nat) : Nat :=
  (Bytes.get block (offset + Record.nameSizeOffset)).toNat

theorem length?_decode (blockSize : Nat) (block : ByteArray) (offset : Nat) :
    (decode blockSize block offset).length? =
      if block.size < offset + Record.headerSize ∨ nameSize block offset = 0 ∨
          block.size < offset + Record.headerSize + nameSize block offset then none
      else some (Record.headerSize + nameSize block offset) := by
  unfold decode nameSize
  dsimp only
  split
  · rfl
  · split
    · rfl
    · split <;> rfl

/-- The slot of a record is as long as its name says. -/
theorem eq_of_length? (h : (decode blockSize block offset).length? = some length) :
    length = Record.headerSize + nameSize block offset ∧ 0 < nameSize block offset ∧
      offset + length ≤ block.size := by
  rw [length?_decode] at h
  split at h
  · cases h
  · rename_i hfits
    have := Option.some.inj h
    omega

/-- A slot is read from its own bytes. -/
theorem decode_congr (hsize : block'.size = block.size)
    (h : ∀ i < Record.headerSize + nameSize block offset,
      Bytes.get block' (offset + i) = Bytes.get block (offset + i)) :
    decode blockSize block' offset = decode blockSize block offset := by
  have hkind := h 0 (by rw [Record.headerSize]; omega)
  have hname : Bytes.get block' (offset + Record.nameSizeOffset)
      = Bytes.get block (offset + Record.nameSizeOffset) :=
    h _ (by rw [Record.headerSize, Record.nameSizeOffset]; omega)
  have hnumber : ∀ place width, place + width ≤ Record.headerSize →
      Bytes.number block' (offset + place) width = Bytes.number block (offset + place) width := by
    intro place width hle
    refine Bytes.number_congr fun k hk => ?_
    rw [Nat.add_assoc]
    exact h _ (by omega)
  have hext : block'.extract (offset + Record.headerSize)
        (offset + Record.headerSize + nameSize block offset)
      = block.extract (offset + Record.headerSize)
        (offset + Record.headerSize + nameSize block offset) := by
    refine Bytes.extract_congr hsize fun i hle hlt => ?_
    obtain ⟨i, rfl⟩ := Nat.exists_eq_add_of_le (Nat.le_trans (Nat.le_add_right ..) hle)
    exact h _ (by omega)
  rw [Nat.add_zero] at hkind
  unfold decode
  rw [nameSize] at hext
  simp only [hname, hsize, hkind, hext, hnumber 1 4 (by decide),
    hnumber Record.sizeOffset 4 (by decide), hnumber Record.mtimeOffset 8 (by decide)]

/-- Nothing is read where the name has no length or the block ends too early. -/
theorem decode_vacant (h : block.size < offset + Record.headerSize
      + (Bytes.get block (offset + Record.nameSizeOffset)).toNat ∨
    Bytes.get block (offset + Record.nameSizeOffset) = 0) :
    decode blockSize block offset = .vacant := by
  unfold decode
  dsimp only
  rw [if_pos]
  rcases h with h | h
  · exact .inr (.inr h)
  · exact .inr (.inl (by rw [h]; rfl))

theorem vacant_of_length? (h : (decode blockSize block offset).length? = none) :
    decode blockSize block offset = .vacant := by
  cases hslot : decode blockSize block offset with
  | vacant => rfl
  | record record length => rw [hslot] at h; cases h
  | unknownKind code length => rw [hslot] at h; cases h
  | malformedName length => rw [hslot] at h; cases h

/-! ### Records -/

/-- The record in a slot that stands for an entry. -/
def record? : Slot → Option Record
  | .record r _ => if r.address = 0 then none else some r
  | _ => none

theorem fromUTF8?_toUTF8 (name : String) : String.fromUTF8? name.toUTF8 = some name := by
  unfold String.fromUTF8?
  rw [String.toUTF8_eq_toByteArray, dif_pos name.isValidUTF8]
  rfl

theorem toUTF8_of_fromUTF8? {bytes : ByteArray} {name : String}
    (h : String.fromUTF8? bytes = some name) : name.toUTF8 = bytes := by
  unfold String.fromUTF8? at h
  split at h
  · obtain rfl := Option.some.inj h
    rfl
  · cases h

/-- What a place holds that reads as a record: the fields of the record, one behind the other. -/
structure Holds (blockSize : Nat) (block : ByteArray) (offset : Nat) (record : Record)
    (length : Nat) : Prop where
  fits : offset + length ≤ block.size
  length_eq : length = Record.headerSize + nameSize block offset
  nameSize_pos : 0 < nameSize block offset
  kind_code : record.kind.code = Bytes.get block offset
  address_eq : record.address = Bytes.number block (offset + 1) 4 * blockSize
  size_eq : record.size.toNat = Bytes.number block (offset + Record.sizeOffset) 4
  mtime_eq : record.mtime.toNat = Bytes.number block (offset + Record.mtimeOffset) 8
  name_eq : record.name.toUTF8 = block.extract (offset + Record.headerSize) (offset + length)

theorem of_decode {record : Record}
    (h : decode blockSize block offset = .record record length) :
    Holds blockSize block offset record length := by
  have hslot : (decode blockSize block offset).length? = some length := by
    rw [h]
    rfl
  obtain ⟨hlength, hpos, hend⟩ := eq_of_length? hslot
  have hsize := Bytes.number_lt block (offset + Record.sizeOffset) 4
  have hmtime := Bytes.number_lt block (offset + Record.mtimeOffset) 8
  unfold decode at h
  dsimp only at h
  split at h
  · cases h
  split at h
  · cases h
  rename_i kind hkind
  split at h
  · cases h
  rename_i name hname
  obtain ⟨rfl, -⟩ := Slot.record.inj h
  have hstop : offset + length
      = offset + Record.headerSize + (Bytes.get block (offset + Record.nameSizeOffset)).toNat := by
    rw [hlength, nameSize, Nat.add_assoc]
  exact ⟨hend, hlength, hpos, Kind.code_of_ofCode? hkind, rfl, UInt32.toNat_ofNat_of_lt' hsize,
    UInt64.toNat_ofNat_of_lt' hmtime, hstop ▸ toUTF8_of_fromUTF8? hname⟩

theorem Holds.utf8ByteSize_eq {record : Record}
    (h : Holds blockSize block offset record length) :
    record.name.utf8ByteSize = nameSize block offset := by
  have hlength := h.length_eq
  have hfits := h.fits
  have hsize : record.name.toUTF8.size = record.name.utf8ByteSize := rfl
  rw [← hsize, h.name_eq, ByteArray.size_extract]
  omega

/-- A record is as long as it takes to encode it. -/
theorem length_of_record {record : Record}
    (h : decode blockSize block offset = .record record length) :
    length = record.encodedSize ∧ offset + length ≤ block.size ∧ Record.headerSize < length := by
  have holds := of_decode h
  have hlength := holds.length_eq
  have hpos := holds.nameSize_pos
  rw [Record.encodedSize, holds.utf8ByteSize_eq]
  exact ⟨hlength, holds.fits, by omega⟩

/-- So is the record in a slot that stands for an entry. -/
theorem length?_of_record? {record : Record}
    (h : (decode blockSize block offset).record? = some record) :
    (decode blockSize block offset).length? = some record.encodedSize := by
  rcases hslot : decode blockSize block offset with ⟨r, length⟩ | _ | _ | _
  · rw [hslot, record?] at h
    split at h
    · cases h
    · obtain rfl := Option.some.inj h
      rw [(length_of_record hslot).1, length?]
  all_goals
    rw [hslot] at h
    cases h

/-- Where only the bytes for size and mtime differ, the record read differs only there. -/
theorem decode_restat (hsize : block'.size = block.size) {record : Record}
    (hrecord : decode blockSize block offset = .record record length)
    (h : ∀ i < length, i < Record.sizeOffset ∨ Record.nameSizeOffset ≤ i →
      Bytes.get block' (offset + i) = Bytes.get block (offset + i)) :
    decode blockSize block' offset = .record { record with
      size := UInt32.ofNat (Bytes.number block' (offset + Record.sizeOffset) 4)
      mtime := UInt64.ofNat (Bytes.number block' (offset + Record.mtimeOffset) 8) } length := by
  have hslot : (decode blockSize block offset).length? = some length := by
    rw [hrecord]
    rfl
  obtain ⟨hlength, hpos, hend⟩ := eq_of_length? hslot
  have hheader : Record.headerSize = 18 := rfl
  have hkind := h 0 (by omega) (.inl (by decide))
  have hname : Bytes.get block' (offset + Record.nameSizeOffset)
      = Bytes.get block (offset + Record.nameSizeOffset) :=
    h _ (by rw [Record.nameSizeOffset]; omega) (.inr (Nat.le_refl _))
  have haddress : Bytes.number block' (offset + 1) 4 = Bytes.number block (offset + 1) 4 := by
    refine Bytes.number_congr fun k hk => ?_
    rw [Nat.add_assoc]
    exact h _ (by omega) (.inl (by rw [Record.sizeOffset]; omega))
  have hext : block'.extract (offset + Record.headerSize)
        (offset + Record.headerSize + nameSize block offset)
      = block.extract (offset + Record.headerSize)
        (offset + Record.headerSize + nameSize block offset) := by
    refine Bytes.extract_congr hsize fun i hle hlt => ?_
    obtain ⟨i, rfl⟩ := Nat.exists_eq_add_of_le (Nat.le_trans (Nat.le_add_right ..) hle)
    exact h _ (by omega) (.inr (by rw [Record.nameSizeOffset]; omega))
  rw [Nat.add_zero] at hkind
  rw [nameSize] at hext
  unfold decode at hrecord ⊢
  simp only [hname, hsize, hkind, hext, haddress]
  dsimp only at hrecord
  split at hrecord
  · cases hrecord
  · rename_i hfits
    rw [if_neg hfits]
    split at hrecord
    · cases hrecord
    · rename_i kind hcode
      split at hrecord
      · cases hrecord
      · rename_i name htext
        obtain ⟨hfields, hlen⟩ := Slot.record.inj hrecord
        rw [← hfields, hlen]

end Slot

/-! ### Encoding -/

namespace Record

variable {blockSize : Nat} {record : Record}

/-- Which records can be encoded. -/
structure Encodable (blockSize : Nat) (record : Record) : Prop where
  name_pos : 0 < record.name.utf8ByteSize
  name_le : record.name.utf8ByteSize ≤ maxNameSize
  aligned : record.address % blockSize = 0
  number_lt : record.address / blockSize < UInt32.size

/-- What stands in front of the name of an encoded record. -/
def header (blockSize : Nat) (record : Record) : ByteArray :=
  [record.kind.code].toByteArray
    ++ Bytes.ofNumber 4 (record.address / blockSize)
    ++ Bytes.ofNumber 4 record.size.toNat
    ++ Bytes.ofNumber 8 record.mtime.toNat
    ++ [UInt8.ofNat record.name.utf8ByteSize].toByteArray

theorem encode_eq (h : record.Encodable blockSize) :
    record.encode blockSize = .ok (record.header blockSize ++ record.name.toUTF8) := by
  obtain ⟨hpos, hle, haligned, hlt⟩ := h
  unfold encode
  dsimp only
  rw [if_neg (by omega), if_neg (by omega),
    if_neg (not_or.mpr ⟨not_not.mpr haligned, Nat.not_le.mpr hlt⟩)]
  rfl

/-- No other record is encoded. -/
theorem encodable_of_encode {bytes : ByteArray} (h : record.encode blockSize = .ok bytes) :
    record.Encodable blockSize := by
  unfold encode at h
  dsimp only at h
  split at h
  · cases h
  split at h
  · cases h
  split at h
  · cases h
  rename_i hname hlength haddress
  obtain ⟨haligned, hnumber⟩ := not_or.mp haddress
  exact ⟨by omega, by omega, not_not.mp haligned, Nat.not_le.mp hnumber⟩

theorem Encodable.encodedSize_le (h : record.Encodable blockSize) :
    record.encodedSize ≤ headerSize + maxNameSize :=
  Nat.add_le_add_left h.name_le headerSize

@[simp] theorem size_header (blockSize : Nat) (record : Record) :
    (record.header blockSize).size = headerSize := by
  simp only [header, ByteArray.size_append, Bytes.size_ofNumber, Bytes.size_singleton]
  rfl

theorem size_of_encode {bytes : ByteArray} (h : record.Encodable blockSize)
    (hbytes : record.encode blockSize = .ok bytes) : bytes.size = record.encodedSize := by
  obtain rfl := Except.ok.inj ((encode_eq h).symm.trans hbytes)
  rw [ByteArray.size_append, size_header]
  rfl

theorem get_header_kind (blockSize : Nat) (record : Record) :
    Bytes.get (record.header blockSize) 0 = record.kind.code := by
  unfold header
  rw [Bytes.get_append_left (by simp), Bytes.get_append_left (by simp),
    Bytes.get_append_left (by simp), Bytes.get_append_left (by simp)]
  rfl

theorem get_header_nameSize (blockSize : Nat) (record : Record) :
    Bytes.get (record.header blockSize) nameSizeOffset = UInt8.ofNat record.name.utf8ByteSize := by
  unfold header
  rw [Bytes.get_append_right (by simp [nameSizeOffset])]
  simp [nameSizeOffset, Bytes.get]

theorem number_header_block (h : record.address / blockSize < UInt32.size) :
    Bytes.number (record.header blockSize) 1 4 = record.address / blockSize := by
  unfold header
  rw [Bytes.number_append_left (by simp), Bytes.number_append_left (by simp),
    Bytes.number_append_left (by simp), Bytes.number_append_right (by simp),
    Bytes.number_ofNumber]
  exact Nat.mod_eq_of_lt h

theorem number_header_size (blockSize : Nat) (record : Record) :
    Bytes.number (record.header blockSize) sizeOffset 4 = record.size.toNat := by
  unfold header
  rw [Bytes.number_append_left (by simp [sizeOffset]),
    Bytes.number_append_left (by simp [sizeOffset]),
    Bytes.number_append_right (by simp [sizeOffset]), Bytes.number_ofNumber]
  exact Nat.mod_eq_of_lt record.size.toNat_lt

theorem number_header_mtime (blockSize : Nat) (record : Record) :
    Bytes.number (record.header blockSize) mtimeOffset 8 = record.mtime.toNat := by
  unfold header
  rw [Bytes.number_append_left (by simp [mtimeOffset]),
    Bytes.number_append_right (by simp [mtimeOffset]), Bytes.number_ofNumber]
  exact Nat.mod_eq_of_lt record.mtime.toNat_lt

end Record

/-- The bytes of a record are read back as this record, wherever they stand in a block. -/
theorem Slot.decode_encode {blockSize offset : Nat} {block bytes : ByteArray} {record : Record}
    (hrecord : record.Encodable blockSize) (hbytes : record.encode blockSize = .ok bytes)
    (hend : offset + bytes.size ≤ block.size)
    (h : ∀ i < bytes.size, Bytes.get block (offset + i) = Bytes.get bytes i) :
    decode blockSize block offset = .record record record.encodedSize := by
  obtain rfl := Except.ok.inj ((Record.encode_eq hrecord).symm.trans hbytes)
  obtain ⟨hpos, hle, haligned, hlt⟩ := hrecord
  have hheader : Record.headerSize = 18 := rfl
  have hutf8 : record.name.toUTF8.size = record.name.utf8ByteSize := rfl
  rw [ByteArray.size_append, Record.size_header, hutf8] at hend h
  rw [Record.maxNameSize] at hle
  have hget : ∀ i < Record.headerSize,
      Bytes.get block (offset + i) = Bytes.get (record.header blockSize) i := by
    intro i hi
    rw [h i (by omega), Bytes.get_append_left (by rw [Record.size_header]; exact hi)]
  have hnumber : ∀ start width, start + width ≤ Record.headerSize →
      Bytes.number block (offset + start) width
        = Bytes.number (record.header blockSize) start width := by
    intro start width hwidth
    refine Bytes.number_congr fun k hk => ?_
    rw [Nat.add_assoc]
    exact hget _ (by omega)
  -- the size of the name fits into its byte, so it tells where the name ends
  have hname : (Bytes.get block (offset + Record.nameSizeOffset)).toNat
      = record.name.utf8ByteSize := by
    rw [hget _ (by decide), Record.get_header_nameSize, UInt8.toNat_ofNat']
    exact Nat.mod_eq_of_lt (by omega)
  have htext : block.extract (offset + Record.headerSize)
      (offset + Record.headerSize + record.name.utf8ByteSize) = record.name.toUTF8 := by
    refine Bytes.ext_get (by rw [ByteArray.size_extract]; omega) fun i hi => ?_
    rw [ByteArray.size_extract] at hi
    rw [Bytes.get_extract, if_pos (by omega), Nat.add_assoc, h _ (by omega),
      Bytes.get_append_right (by rw [Record.size_header]; omega), Record.size_header,
      Nat.add_sub_cancel_left]
  have hkind := hget 0 (by decide)
  rw [Nat.add_zero] at hkind
  unfold decode
  dsimp only
  rw [hname, if_neg (by omega), hkind, Record.get_header_kind, Kind.ofCode?_code]
  dsimp only
  rw [htext, fromUTF8?_toUTF8, hnumber 1 4 (by decide), hnumber _ 4 (by decide),
    hnumber _ 8 (by decide), Record.number_header_block hlt, Record.number_header_size,
    Record.number_header_mtime, UInt32.ofNat_toNat, UInt64.ofNat_toNat,
    Nat.div_mul_cancel (Nat.dvd_of_mod_eq_zero haligned)]
  rfl

/-! ## All slots of a block -/

namespace Directory

variable {blockSize offset length : Nat} {block block' : ByteArray}

/-- The slots of a block from `offset` on with their places, up to the free rest of the block. -/
def slots (blockSize : Nat) (block : ByteArray) (offset : Nat) : List (Nat × Slot) :=
  match _length : (Slot.decode blockSize block offset).length? with
  | none => []
  | some length =>
    (offset, Slot.decode blockSize block offset) :: slots blockSize block (offset + length)
termination_by block.size - offset
decreasing_by
  have bounds := Slot.length_bounds _length
  omega

/-- Where the free rest of a block begins, behind the slots from `offset` on. -/
def vacantFrom (blockSize : Nat) (block : ByteArray) (offset : Nat) : Nat :=
  match _length : (Slot.decode blockSize block offset).length? with
  | none => offset
  | some length => vacantFrom blockSize block (offset + length)
termination_by block.size - offset
decreasing_by
  have bounds := Slot.length_bounds _length
  omega

theorem slots_vacant (h : (Slot.decode blockSize block offset).length? = none) :
    slots blockSize block offset = [] ∧ vacantFrom blockSize block offset = offset := by
  constructor
  · rw [slots]
    split
    · rfl
    · rename_i length hlength
      rw [h] at hlength
      cases hlength
  · rw [vacantFrom]
    split
    · rfl
    · rename_i length hlength
      rw [h] at hlength
      cases hlength

theorem slots_step (h : (Slot.decode blockSize block offset).length? = some length) :
    slots blockSize block offset
        = (offset, Slot.decode blockSize block offset) :: slots blockSize block (offset + length) ∧
      vacantFrom blockSize block offset = vacantFrom blockSize block (offset + length) := by
  constructor
  · rw [slots]
    split
    · rename_i hlength
      rw [h] at hlength
      cases hlength
    · rename_i length' hlength
      rw [h] at hlength
      obtain rfl := Option.some.inj hlength
      rfl
  · rw [vacantFrom]
    split
    · rename_i hlength
      rw [h] at hlength
      cases hlength
    · rename_i length' hlength
      rw [h] at hlength
      obtain rfl := Option.some.inj hlength
      rfl

/-- The slots of a block by induction: none where the block is free, or one and those behind it. -/
theorem slots_induction (blockSize : Nat) (block : ByteArray) {motive : Nat → Prop}
    (vacant : ∀ offset, (Slot.decode blockSize block offset).length? = none → motive offset)
    (step : ∀ offset length, (Slot.decode blockSize block offset).length? = some length →
      motive (offset + length) → motive offset) (offset : Nat) : motive offset := by
  fun_induction slots blockSize block offset with
  | case1 offset hlength => exact vacant offset hlength
  | case2 offset length hlength ih => exact step offset length hlength ih

theorem le_vacantFrom (blockSize : Nat) (block : ByteArray) (offset : Nat) :
    offset ≤ vacantFrom blockSize block offset := by
  induction offset using slots_induction blockSize block with
  | vacant offset hlength => rw [(slots_vacant hlength).2]
  | step offset length hlength ih =>
    rw [(slots_step hlength).2]
    omega

/-- A slot lies between the place where the slots begin and the free rest. -/
theorem bounds_of_mem {place : Nat} {slot : Slot}
    (h : (place, slot) ∈ slots blockSize block offset) :
    offset ≤ place ∧ slot = Slot.decode blockSize block place ∧
      ∃ length, slot.length? = some length ∧ Record.headerSize < length ∧
        place + length ≤ vacantFrom blockSize block offset ∧ place + length ≤ block.size := by
  induction offset using slots_induction blockSize block with
  | vacant offset hlength =>
    rw [(slots_vacant hlength).1] at h
    cases h
  | step offset length hlength ih =>
    obtain ⟨hslots, hvacant⟩ := slots_step hlength
    have hbounds := Slot.length_bounds hlength
    have hle := le_vacantFrom blockSize block (offset + length)
    rw [hslots] at h
    rw [hvacant]
    rcases List.mem_cons.mp h with heq | hmem
    · obtain ⟨rfl, rfl⟩ := Prod.mk.inj heq
      exact ⟨Nat.le_refl _, rfl, length, hlength, hbounds.1, hle, hbounds.2⟩
    · obtain ⟨hge, hslot, hrest⟩ := ih hmem
      exact ⟨by omega, hslot, hrest⟩

/-- A block with the same bytes up to the free rest has the same slots up to there. -/
theorem slots_prefix (blockSize : Nat) (hsize : block'.size = block.size)
    (h : ∀ i, offset ≤ i → i < vacantFrom blockSize block offset →
      Bytes.get block' i = Bytes.get block i) :
    slots blockSize block' offset = slots blockSize block offset
        ++ slots blockSize block' (vacantFrom blockSize block offset) ∧
      vacantFrom blockSize block' offset
        = vacantFrom blockSize block' (vacantFrom blockSize block offset) := by
  induction offset using slots_induction blockSize block with
  | vacant offset hlength =>
    obtain ⟨hslots, hvacant⟩ := slots_vacant hlength
    rw [hslots, hvacant, List.nil_append]
    exact ⟨rfl, rfl⟩
  | step offset length hlength ih =>
    obtain ⟨hslots, hvacant⟩ := slots_step hlength
    rw [hvacant] at h
    have hle := le_vacantFrom blockSize block (offset + length)
    have hbounds := Slot.eq_of_length? hlength
    have hslot : Slot.decode blockSize block' offset = Slot.decode blockSize block offset :=
      Slot.decode_congr hsize fun i hi => h _ (by omega) (by omega)
    obtain ⟨hslots', hvacant'⟩ := slots_step (hslot ▸ hlength)
    obtain ⟨ihslots, ihvacant⟩ := ih fun i hge hlt => h i (by omega) hlt
    rw [hslots, hvacant, hslots', hvacant', hslot, List.cons_append, ← ihslots]
    exact ⟨rfl, ihvacant⟩

/-- Behind the slots nothing can be read. -/
theorem length?_vacantFrom (blockSize : Nat) (block : ByteArray) (offset : Nat) :
    (Slot.decode blockSize block (vacantFrom blockSize block offset)).length? = none := by
  induction offset using slots_induction blockSize block with
  | vacant offset hlength => rwa [(slots_vacant hlength).2]
  | step offset length hlength ih => rwa [(slots_step hlength).2]

/-- A block with the same bytes from a place on has the same slots from there on. -/
theorem slots_congr (blockSize offset : Nat) (hsize : block'.size = block.size)
    (h : ∀ i, offset ≤ i → Bytes.get block' i = Bytes.get block i) :
    slots blockSize block' offset = slots blockSize block offset ∧
      vacantFrom blockSize block' offset = vacantFrom blockSize block offset := by
  have hle := le_vacantFrom blockSize block offset
  have hend : Slot.decode blockSize block' (vacantFrom blockSize block offset)
      = Slot.decode blockSize block (vacantFrom blockSize block offset) :=
    Slot.decode_congr hsize fun i _ => h _ (by omega)
  obtain ⟨hslots, hvacant⟩ := slots_prefix blockSize hsize fun i hge _ => h i hge
  obtain ⟨hnone, hplace⟩ := slots_vacant (hend ▸ length?_vacantFrom blockSize block offset)
  rw [hslots, hvacant, hnone, hplace, List.append_nil]
  exact ⟨rfl, rfl⟩

/-- Where a block is zero from a place on, no slot begins there. -/
theorem slots_zero (blockSize : Nat) (block : ByteArray)
    (h : ∀ i, offset ≤ i → Bytes.get block i = 0) :
    slots blockSize block offset = [] ∧ vacantFrom blockSize block offset = offset := by
  have hvacant : Slot.decode blockSize block offset = .vacant :=
    Slot.decode_vacant (.inr (h _ (by omega)))
  exact slots_vacant (by rw [hvacant]; rfl)

/-- A record encoded behind the slots of a block, with zeros behind it, is one more slot. -/
theorem slots_append {record : Record} {bytes : ByteArray} (hrecord : record.Encodable blockSize)
    (hbytes : record.encode blockSize = .ok bytes) (hsize : block'.size = block.size)
    (hend : vacantFrom blockSize block offset + bytes.size ≤ block.size)
    (hfront : ∀ i, offset ≤ i → i < vacantFrom blockSize block offset →
      Bytes.get block' i = Bytes.get block i)
    (hinside : ∀ i < bytes.size,
      Bytes.get block' (vacantFrom blockSize block offset + i) = Bytes.get bytes i)
    (hbehind : ∀ i, vacantFrom blockSize block offset + bytes.size ≤ i →
      Bytes.get block' i = 0) :
    slots blockSize block' offset = slots blockSize block offset
        ++ [(vacantFrom blockSize block offset, .record record record.encodedSize)] ∧
      vacantFrom blockSize block' offset
        = vacantFrom blockSize block offset + record.encodedSize := by
  have hslot := Slot.decode_encode hrecord hbytes (hsize ▸ hend) hinside
  rw [Record.size_of_encode hrecord hbytes] at hbehind
  obtain ⟨hslots, hvacant⟩ := slots_prefix blockSize hsize hfront
  obtain ⟨hone, hnext⟩ := slots_step (by rw [hslot]; rfl :
    (Slot.decode blockSize block' (vacantFrom blockSize block offset)).length?
      = some record.encodedSize)
  obtain ⟨hnone, hplace⟩ := slots_zero blockSize block' hbehind
  rw [hslots, hvacant, hone, hnext, hnone, hplace, hslot]
  exact ⟨rfl, rfl⟩

/-! ### A record rewritten in its place -/

/-- The slot, with another size and mtime if it is a record that stands at `place`. -/
def restatSlot (place : Nat) (size : UInt32) (mtime : UInt64) : Nat × Slot → Nat × Slot
  | (offset, .record r length) =>
    (offset, .record (if offset = place then { r with size, mtime } else r) length)
  | slot => slot

theorem restatSlot_of_ne {place : Nat} {slot : Nat × Slot} (h : slot.1 ≠ place) (size : UInt32)
    (mtime : UInt64) : restatSlot place size mtime slot = slot := by
  obtain ⟨offset, slot⟩ := slot
  cases slot with
  | record record length => rw [restatSlot, if_neg h]
  | unknownKind code length => rfl
  | malformedName length => rfl
  | vacant => rfl

/-- New bytes for size and mtime of one record change just these in just this slot. -/
theorem slots_restat {place : Nat} {record : Record} (hsize : block'.size = block.size)
    (hplace : (place, .record record length) ∈ slots blockSize block offset)
    (h : ∀ i, offset ≤ i → i < place + Record.sizeOffset ∨ place + Record.nameSizeOffset ≤ i →
      Bytes.get block' i = Bytes.get block i) :
    slots blockSize block' offset = (slots blockSize block offset).map (restatSlot place
        (UInt32.ofNat (Bytes.number block' (place + Record.sizeOffset) 4))
        (UInt64.ofNat (Bytes.number block' (place + Record.mtimeOffset) 8))) ∧
      vacantFrom blockSize block' offset = vacantFrom blockSize block offset := by
  have hheader : Record.headerSize = 18 := rfl
  have hsizeOffset : Record.sizeOffset = 5 := rfl
  have hnameOffset : Record.nameSizeOffset = 17 := rfl
  induction offset using slots_induction blockSize block with
  | vacant offset hlength =>
    rw [(slots_vacant hlength).1] at hplace
    cases hplace
  | step offset length' hlength ih =>
    obtain ⟨hslots, hvacant⟩ := slots_step hlength
    have hbounds := Slot.length_bounds hlength
    rw [hslots] at hplace
    rw [hslots, hvacant, List.map_cons]
    rcases List.mem_cons.mp hplace with heq | hmem
    · -- the record is the first slot, and all others stand behind the bytes that change
      obtain ⟨rfl, hslot⟩ := Prod.mk.inj heq
      obtain rfl : length = length' := by
        rw [← hslot] at hlength
        exact Option.some.inj hlength
      have hslot' := Slot.decode_restat hsize hslot.symm fun i hi hor =>
        h _ (by omega) (by omega)
      obtain ⟨hrest, hvacant'⟩ := slots_congr blockSize (place + length) hsize
        fun i hi => h i (by omega) (by omega)
      obtain ⟨hslots', hstep'⟩ := slots_step (by rw [hslot']; rfl :
        (Slot.decode blockSize block' place).length? = some length)
      have hsame : ∀ slot ∈ slots blockSize block (place + length), slot.1 ≠ place := by
        rintro ⟨other, slot⟩ hmem
        have := (bounds_of_mem hmem).1
        dsimp only
        omega
      rw [hslots', hstep', hrest, hvacant', hslot', ← hslot, restatSlot, if_pos rfl]
      refine ⟨congrArg _ ?_, rfl⟩
      rw [List.map_congr_left fun slot hslot => restatSlot_of_ne (hsame slot hslot) _ _,
        List.map_id']
    · have hge := (bounds_of_mem hmem).1
      have hslot : Slot.decode blockSize block' offset = Slot.decode blockSize block offset := by
        have := Slot.eq_of_length? hlength
        exact Slot.decode_congr hsize fun i hi => h _ (by omega) (by omega)
      obtain ⟨ihslots, ihvacant⟩ := ih hmem fun i hi => h i (by omega)
      obtain ⟨hslots', hstep'⟩ := slots_step (hslot ▸ hlength)
      rw [hslots', hstep', ihslots, ihvacant, hslot, restatSlot_of_ne (by dsimp only; omega)]
      exact ⟨rfl, rfl⟩

end Directory

end ChainFs
