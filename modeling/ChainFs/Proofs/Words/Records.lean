import ChainFs.Proofs.Directory.Slots
import ChainFs.Directory.Cursor
import ChainFs.Proofs.Words.Basic

/-!
# Directory blocks on a machine

A directory block may hold any bytes. What cannot be read there is passed over by what these bytes
say about its length, so the places that are looked at are taken from the block itself.

* `Words.decode`, `Words.firstLive` — one slot, and the next entry of a block;
* `Words.decode_eq`, `Words.firstLive_eq` — they do not crash, nor does the search for an entry go
  on longer than there are bytes.

A slot is looked at only after its header and its name were found to end inside the block. So every
position that is used comes with a check in front of it, and the proof is to see that it is this
check which the step needs.
-/

namespace ChainFs.Words

/-! ## Slots -/

/-- Reads a record of `length` bytes, which stands at `offset` of the block at `address`, from its
header and from the bytes of its name. -/
def fields (blockSize : Nat) (header name : ByteArray) (address offset length : Nat) :
    Checked Slot := do
  let code ← byteAt header 0
  match Kind.ofCode? code with
  | none => return .unknownKind code length
  | some kind =>
    let number ← numberAt header 1 4
    let size ← numberAt header Record.sizeOffset 4
    let mtime ← numberAt header Record.mtimeOffset 8
    match String.fromUTF8? name with
    | none =>
      -- where the record is, for the report
      let _ ← add address offset
      return .malformedName length
    | some name =>
      let first ← mul number blockSize
      return .record
        { kind, address := first, size := UInt32.ofNat size, mtime := UInt64.ofNat mtime, name }
        length

/-- Reads what stands at `offset` of the directory block at `address`. -/
def decode (blockSize : Nat) (bytes : ByteArray) (offset address : Nat) : Checked Slot := do
  let headerEnd ← add offset Record.headerSize
  if bytes.size < headerEnd then return .vacant
  else
    let header ← slice bytes offset headerEnd
    let nameSize ← byteAt header Record.nameSizeOffset
    if nameSize.toNat = 0 then return .vacant
    else
      let nameEnd ← add headerEnd nameSize.toNat
      if bytes.size < nameEnd then return .vacant
      else
        let name ← slice bytes headerEnd nameEnd
        let length ← add Record.headerSize nameSize.toNat
        fields blockSize header name address offset length

/-- The place behind a record; the address of the record itself is taken note of. -/
def behind (address offset length : Nat) : Checked Nat := do
  let _ ← add address offset
  add offset length

/-- From `offset` on, the first record of the block at `address` that stands for an entry, with its
length; otherwise the end of the records. The loop may take `turns` turns. -/
def firstLive (blockSize : Nat) (bytes : ByteArray) (address : Nat) :
    (turns offset : Nat) → Checked (Nat × Option (Record × Nat))
  | 0, _ => crash .endless
  | turns + 1, offset => do
    let slot ← decode blockSize bytes offset address
    match slot with
    | .vacant => return (offset, none)
    | .record record length =>
      let stop ← behind address offset length
      if record.address = 0 then firstLive blockSize bytes address turns stop
      else return (offset, some (record, length))
    | .unknownKind _ length =>
      let stop ← behind address offset length
      firstLive blockSize bytes address turns stop
    | .malformedName _ =>
      -- such a record does not tell its length, which is read once more
      let last ← sub (← add offset Record.headerSize) 1
      let nameSize ← byteAt bytes last
      let stop ← add offset (← add Record.headerSize nameSize.toNat)
      firstLive blockSize bytes address turns stop

section

variable {blockSize offset address : Nat} {bytes : ByteArray}

/-- The bytes of a whole record but its name. -/
def header (bytes : ByteArray) (offset : Nat) : ByteArray :=
  bytes.extract offset (offset + Record.headerSize)

theorem get_header {k : Nat} (hk : k < Record.headerSize) :
    Bytes.get (header bytes offset) k = Bytes.get bytes (offset + k) := by
  rw [header, Bytes.get_extract, if_pos (by omega)]

theorem number_header {start width : Nat} (h : start + width ≤ Record.headerSize) :
    Bytes.number (header bytes offset) start width = Bytes.number bytes (offset + start) width :=
  Bytes.number_congr fun k hk => by rw [get_header (by omega), Nat.add_assoc]

theorem size_header (h : offset + Record.headerSize ≤ bytes.size) :
    (header bytes offset).size = Record.headerSize := by
  rw [header, ByteArray.size_extract]
  omega

/-- A record with a name, all of it inside the block, is what stands there. -/
theorem fields_eq {nameSize : Nat} (hblockSize : blockSize < 2 ^ 29)
    (hplace : address + offset < 2 ^ 64)
    (hname : (Bytes.get bytes (offset + Record.nameSizeOffset)).toNat = nameSize)
    (hpos : nameSize ≠ 0) (hwhole : offset + Record.headerSize + nameSize ≤ bytes.size) :
    fields blockSize (header bytes offset)
        (bytes.extract (offset + Record.headerSize) (offset + Record.headerSize + nameSize))
        address offset (Record.headerSize + nameSize)
      = .ok (Slot.decode blockSize bytes offset) := by
  have hsize : (header bytes offset).size = Record.headerSize := size_header (by omega)
  rw [Slot.decode]
  rw [hname, if_neg (by omega), fields, byteAt_eq (by rw [hsize]; decide), Checked.ok_bind,
    get_header (by decide), Nat.add_zero]
  rcases hkind : Kind.ofCode? (Bytes.get bytes offset) with _ | kind
  · rfl
  simp (disch := first | decide | (rw [hsize]; decide)) only [numberAt_eq, number_header,
    Checked.ok_bind]
  rcases htext : String.fromUTF8? (bytes.extract (offset + Record.headerSize)
      (offset + Record.headerSize + nameSize)) with _ | text
  · dsimp only
    rw [add_eq hplace]
    rfl
  · have hnumber := Bytes.number_lt bytes (offset + 1) 4
    have hproduct : Bytes.number bytes (offset + 1) 4 * blockSize < 2 ^ 64 :=
      calc Bytes.number bytes (offset + 1) 4 * blockSize
          ≤ 256 ^ 4 * 2 ^ 29 := Nat.mul_le_mul (by omega) (by omega)
        _ < 2 ^ 64 := by decide
    dsimp only
    rw [mul_eq hproduct]
    rfl

theorem decode_eq (hblockSize : blockSize < 2 ^ 29) (hsize : bytes.size < 2 ^ 29)
    (hoffset : offset ≤ bytes.size) (haddress : address < 2 ^ 61) :
    decode blockSize bytes offset address = .ok (Slot.decode blockSize bytes offset) := by
  have hheader : Record.headerSize = 18 := rfl
  have hvacant (h : bytes.size < offset + Record.headerSize ∨ Slot.nameSize bytes offset = 0 ∨
      bytes.size < offset + Record.headerSize + Slot.nameSize bytes offset) :
      Slot.decode blockSize bytes offset = .vacant :=
    Slot.vacant_of_length? (by rw [Slot.length?_decode, if_pos h])
  rw [Slot.nameSize] at hvacant
  rw [decode, add_eq (by omega), Checked.ok_bind]
  by_cases hshort : bytes.size < offset + Record.headerSize
  · rw [if_pos hshort, hvacant (.inl hshort)]
    rfl
  have hwhole : offset + Record.headerSize ≤ bytes.size := Nat.le_of_not_lt hshort
  rw [if_neg hshort, slice_eq (by omega) hwhole, Checked.ok_bind, ← header,
    byteAt_eq (by rw [size_header hwhole]; decide), Checked.ok_bind, get_header (by decide)]
  generalize hname : Bytes.get bytes (offset + Record.nameSizeOffset) = nameSize at hvacant ⊢
  have hsmall := nameSize.toNat_lt
  by_cases hempty : nameSize.toNat = 0
  · rw [if_pos hempty, hvacant (.inr (.inl hempty))]
    rfl
  rw [if_neg hempty, add_eq (by omega), Checked.ok_bind]
  by_cases hcut : bytes.size < offset + Record.headerSize + nameSize.toNat
  · rw [if_pos hcut, hvacant (.inr (.inr hcut))]
    rfl
  rw [if_neg hcut]
  simp (disch := omega) only [slice_eq, add_eq, Checked.ok_bind]
  exact fields_eq hblockSize (by omega) (congrArg UInt8.toNat hname) hempty (by omega)

theorem behind_eq {length : Nat} (hsize : bytes.size < 2 ^ 29) (haddress : address < 2 ^ 61)
    (hend : offset + length ≤ bytes.size) :
    behind address offset length = .ok (offset + length) := by
  rw [behind, add_eq (by omega), Checked.ok_bind, add_eq (by omega)]

/-- A turn of the loop ends at an entry or in the free rest of the block, and passes over any other
record. -/
theorem firstLive_succ (hblockSize : blockSize < 2 ^ 29) (hsize : bytes.size < 2 ^ 29)
    (hoffset : offset ≤ bytes.size) (haddress : address < 2 ^ 61) (turns : Nat) :
    firstLive blockSize bytes address (turns + 1) offset =
      match Slot.decode blockSize bytes offset with
      | .vacant => .ok (offset, none)
      | .record record length =>
        if record.address = 0 then firstLive blockSize bytes address turns (offset + length)
        else .ok (offset, some (record, length))
      | .unknownKind _ length => firstLive blockSize bytes address turns (offset + length)
      | .malformedName length => firstLive blockSize bytes address turns (offset + length) := by
  rw [firstLive, decode_eq hblockSize hsize hoffset haddress, Checked.ok_bind]
  rcases hslot : Slot.decode blockSize bytes offset with
    ⟨record, length⟩ | ⟨code, length⟩ | length | _
  · obtain ⟨-, hend⟩ := Slot.length_bounds (by rw [hslot]; rfl)
    dsimp only
    rw [behind_eq hsize haddress hend]
    rfl
  · obtain ⟨-, hend⟩ := Slot.length_bounds (by rw [hslot]; rfl)
    dsimp only
    rw [behind_eq hsize haddress hend]
    rfl
  · obtain ⟨hlength, -, hend⟩ := Slot.eq_of_length? (by rw [hslot]; rfl)
    have hheader : Record.headerSize = 18 := rfl
    have hlast : offset + Record.headerSize - 1 = offset + Record.nameSizeOffset := rfl
    have hinside : offset + Record.nameSizeOffset < bytes.size := by
      rw [Record.nameSizeOffset]
      omega
    rw [Slot.nameSize] at hlength
    simp (disch := omega) only [add_eq, sub_eq, byteAt_eq, hlast, Checked.ok_bind, ← hlength]
  · rfl

/-- As many turns as there are bytes left are enough. -/
theorem firstLive_eq {turns : Nat} (hblockSize : blockSize < 2 ^ 29) (hsize : bytes.size < 2 ^ 29)
    (hoffset : offset ≤ bytes.size) (haddress : address < 2 ^ 61)
    (henough : bytes.size < offset + turns) :
    firstLive blockSize bytes address turns offset
      = .ok (Cursor.firstLive blockSize bytes offset) := by
  fun_induction Cursor.firstLive blockSize bytes offset generalizing turns with
  | case1 offset slot =>
    obtain _ | turns := turns
    · omega
    rw [firstLive_succ hblockSize hsize hoffset haddress, slot]
  | case2 offset record length slot hzero ih =>
    obtain ⟨hlength, hend⟩ := Slot.length_bounds (by rw [slot]; rfl)
    obtain _ | turns := turns
    · omega
    rw [firstLive_succ hblockSize hsize hoffset haddress, slot]
    dsimp only
    rw [if_pos hzero]
    exact ih hend (by omega)
  | case3 offset record length slot hzero =>
    obtain _ | turns := turns
    · omega
    rw [firstLive_succ hblockSize hsize hoffset haddress, slot]
    exact if_neg hzero
  | case4 offset code length slot ih =>
    obtain ⟨hlength, hend⟩ := Slot.length_bounds (by rw [slot]; rfl)
    obtain _ | turns := turns
    · omega
    rw [firstLive_succ hblockSize hsize hoffset haddress, slot]
    exact ih hend (by omega)
  | case5 offset length slot ih =>
    obtain ⟨hlength, hend⟩ := Slot.length_bounds (by rw [slot]; rfl)
    obtain _ | turns := turns
    · omega
    rw [firstLive_succ hblockSize hsize hoffset haddress, slot]
    exact ih hend (by omega)

end

end ChainFs.Words
