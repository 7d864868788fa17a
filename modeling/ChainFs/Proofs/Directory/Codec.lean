import ChainFs.Proofs.Directory.Slots

/-!
# Records and their bytes

A record that can be encoded has one encoding, and a place of a block reads as a record exactly if
the encoding of that record stands there.

That what was encoded is read back was shown with the slots of a block. The other direction needs
that the bytes of a record have no choice. Each field has a fixed width and is read as a number that
its bytes determine, and text has one encoding; so a record that was read is encoded as the bytes it
was read from.

* `Record.encode_of_decode` — what was read there is encoded as the bytes it was read from;
* `Slot.decodeStrict_iff_encode` — reading and encoding are inverse to each other.
-/

namespace ChainFs

/-! ## What was read is encoded as it stands -/

namespace Slot

namespace Holds

variable {blockSize offset length : Nat} {block : ByteArray} {record : Record}
variable (h : Holds blockSize block offset record length)
include h

/-- Only records that can be encoded are read. -/
theorem encodable (hblock : 0 < blockSize) : record.Encodable blockSize where
  name_pos := h.utf8ByteSize_eq ▸ h.nameSize_pos
  name_le := by
    have hbyte := (Bytes.get block (offset + Record.nameSizeOffset)).toNat_lt
    rw [h.utf8ByteSize_eq, nameSize, Record.maxNameSize]
    omega
  aligned := by rw [h.address_eq, Nat.mul_mod_left]
  number_lt := by
    rw [h.address_eq, Nat.mul_div_cancel _ hblock]
    exact Bytes.number_lt block (offset + 1) 4

/-- The header of the record is what stands in front of the name. -/
theorem header_eq (hblock : 0 < blockSize) :
    record.header blockSize = block.extract offset (offset + Record.headerSize) := by
  have hheader : Record.headerSize = 18 := rfl
  have hsizeOffset : Record.sizeOffset = 5 := rfl
  have hmtimeOffset : Record.mtimeOffset = 9 := rfl
  have hnameOffset : Record.nameSizeOffset = 17 := rfl
  have hfits := h.fits
  have hlength := h.length_eq
  have hname : UInt8.ofNat record.name.utf8ByteSize
      = Bytes.get block (offset + Record.nameSizeOffset) := by
    rw [h.utf8ByteSize_eq, nameSize, UInt8.ofNat_toNat]
  rw [Record.header, h.kind_code, h.address_eq, Nat.mul_div_cancel _ hblock, h.size_eq, h.mtime_eq,
    hname, Bytes.singleton_get (by omega), Bytes.singleton_get (by omega),
    Bytes.ofNumber_number 4 (by omega), Bytes.ofNumber_number 4 (by omega),
    Bytes.ofNumber_number 8 (by omega)]
  -- each field begins where the one in front of it ends
  simp only [hheader, hsizeOffset, hmtimeOffset, hnameOffset, Nat.add_assoc, Nat.reduceAdd]
  rw [Bytes.extract_append_extract (by omega) (by omega),
    Bytes.extract_append_extract (by omega) (by omega),
    Bytes.extract_append_extract (by omega) (by omega),
    Bytes.extract_append_extract (by omega) (by omega)]

end Holds

end Slot

namespace Record

variable {blockSize offset length : Nat} {block bytes : ByteArray} {record : Record}

theorem encodable_iff : (∃ bytes, record.encode blockSize = .ok bytes) ↔
    record.Encodable blockSize :=
  ⟨fun ⟨_, h⟩ => encodable_of_encode h, fun h => ⟨_, encode_eq h⟩⟩

/-- What was read at a place is encoded as the bytes it was read from. -/
theorem encode_of_decode (hblock : 0 < blockSize)
    (h : Slot.decode blockSize block offset = .record record length) :
    record.encode blockSize = .ok (block.extract offset (offset + length)) := by
  have holds := Slot.of_decode h
  have hlength := holds.length_eq
  rw [encode_eq (holds.encodable hblock), holds.header_eq hblock, holds.name_eq,
    Bytes.extract_append_extract (by omega) (by omega)]

/-- The address in a record that can be encoded is a 64-bit number if the size of the blocks is a
32-bit one. -/
theorem Encodable.address_lt (h : record.Encodable blockSize) (hblock : 0 < blockSize)
    (hlt : blockSize < 2 ^ 32) : record.address < 2 ^ 64 := by
  calc record.address
      = record.address / blockSize * blockSize :=
        (Nat.div_mul_cancel (Nat.dvd_of_mod_eq_zero h.aligned)).symm
    _ < 2 ^ 32 * blockSize := Nat.mul_lt_mul_of_pos_right h.number_lt hblock
    _ ≤ 2 ^ 32 * 2 ^ 32 := Nat.mul_le_mul_left _ hlt.le
    _ = 2 ^ 64 := by norm_num

end Record

namespace Slot

variable {blockSize offset length : Nat} {block : ByteArray} {record : Record}

theorem decodeStrict_eq_record_iff {address : Nat} :
    decodeStrict blockSize block offset address = .ok (.record record length) ↔
      decode blockSize block offset = .record record length := by
  unfold decodeStrict
  split
  · rename_i malformed hslot
    rw [hslot]
    exact iff_of_false (fun h => by cases h) fun h => by cases h
  · rw [Except.ok.injEq]

/-- A place reads as a record exactly if the encoding of this record stands there. -/
theorem decode_eq_record_iff (hblock : 0 < blockSize) :
    decode blockSize block offset = .record record length ↔
      offset + length ≤ block.size ∧
        record.encode blockSize = .ok (block.extract offset (offset + length)) := by
  refine ⟨fun h => ⟨(of_decode h).fits, Record.encode_of_decode hblock h⟩, ?_⟩
  rintro ⟨hfits, hbytes⟩
  have hrecord := Record.encodable_of_encode hbytes
  have hsize := Record.size_of_encode hrecord hbytes
  have hlength : (block.extract offset (offset + length)).size = length := by
    rw [ByteArray.size_extract]
    omega
  have hget : ∀ i < (block.extract offset (offset + length)).size,
      Bytes.get block (offset + i) = Bytes.get (block.extract offset (offset + length)) i :=
    fun i hi => by rw [Bytes.get_extract, if_pos (by omega)]
  have hstop : offset + (block.extract offset (offset + length)).size ≤ block.size := by omega
  rw [decode_encode hrecord hbytes hstop hget, ← hsize, hlength]

/-- **Reading undoes encoding, and encoding undoes reading.** A record has an encoding exactly if
its name has 1 to 255 bytes and its first block stands at a block boundary and has a 32-bit number,
and the encoding is as long as the record says. A place of a block, whatever the block is filled
with elsewhere, reads as a record of some length exactly if so many bytes from there on lie inside
the block and are the encoding of this record. -/
theorem decodeStrict_iff_encode (hblock : 0 < blockSize) (hlt : blockSize < 2 ^ 32)
    (record : Record) :
    ((∃ bytes, record.encode blockSize = .ok bytes) ↔
      (1 ≤ record.name.utf8ByteSize ∧ record.name.utf8ByteSize ≤ 255) ∧
        record.address % blockSize = 0 ∧ record.address / blockSize < 2 ^ 32) ∧
    (∀ bytes, record.encode blockSize = .ok bytes →
      bytes.size = record.encodedSize ∧ record.address < 2 ^ 64) ∧
    ∀ (block : ByteArray) (offset address length : Nat),
      decodeStrict blockSize block offset address = .ok (.record record length) ↔
        offset + length ≤ block.size ∧
          record.encode blockSize = .ok (block.extract offset (offset + length)) := by
  refine ⟨Record.encodable_iff.trans ?_, fun bytes hbytes => ?_, fun block offset address length =>
    decodeStrict_eq_record_iff.trans (decode_eq_record_iff hblock)⟩
  · exact ⟨fun ⟨hpos, hle, haligned, hnumber⟩ => ⟨⟨hpos, hle⟩, haligned, hnumber⟩,
      fun ⟨⟨hpos, hle⟩, haligned, hnumber⟩ => ⟨hpos, hle, haligned, hnumber⟩⟩
  · have hrecord := Record.encodable_of_encode hbytes
    exact ⟨Record.size_of_encode hrecord hbytes, hrecord.address_lt hblock hlt⟩

/-- A file named by the sign for the euro, whose first block is the last one there can be. -/
def euro : Record where
  kind := .file
  address := (2 ^ 32 - 1) * 512
  size := 10
  mtime := 1700000000
  name := "€"

/-- The bytes of this record with other bytes around them. -/
def euroBlock : ByteArray :=
  ⟨#[7, 7, 1, 255, 255, 255, 255, 0, 0, 0, 10, 0, 0, 0, 0, 101, 83, 241, 0, 3, 226, 130, 172, 9]⟩

/-- The record is read where its bytes stand, and nowhere is it read with another length. -/
theorem decodeStrict_euro :
    0 < 512 ∧ 512 < 2 ^ 32 ∧ decodeStrict 512 euroBlock 2 0 = .ok (.record euro 21) ∧
      ∀ offset length, decodeStrict 512 euroBlock offset 0 = .ok (.record euro length) →
        length = 21 := by
  have hblock : 0 < 512 := by decide
  obtain ⟨-, hsize, hiff⟩ := decodeStrict_iff_encode hblock (by decide) euro
  refine ⟨by decide, by decide, (hiff euroBlock 2 0 21).mpr ⟨by decide, by rfl⟩, ?_⟩
  intro offset length h
  obtain ⟨hfits, hbytes⟩ := (hiff euroBlock offset 0 length).mp h
  have hlength : (euroBlock.extract offset (offset + length)).size = length := by
    rw [ByteArray.size_extract]
    omega
  rw [← hlength, (hsize _ hbytes).1]
  rfl

end Slot

end ChainFs
