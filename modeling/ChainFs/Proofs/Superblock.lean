import ChainFs.Volume
import ChainFs.Proofs.Content

/-!
# Superblocks and their bytes

`Superblock.decode` checks the fields in a fixed order and tells the first fault. What it accepts
has no order in it: `Superblock.Holds` lists the fields with their places, and a byte string reads
as a superblock exactly if it holds these fields. Both directions of the codec go through it, and
nothing else opens the decoder. The block size is stored as a code, so the one thing to be shown
about it is which numbers have a code.

* `Superblock.shift_lt_iff` — which codes a block size can have;
* `Superblock.Holds` — the fields that a byte string starts with if it reads as a superblock;
* `Superblock.decode_eq_ok_iff` — exactly then it reads as this superblock;
* `Superblock.decode_encode` — whatever follows an encoded superblock, it is read back;
* `Superblock.decode_recount` — another count of blocks in use changes just this;
* `Superblock.decode_iff_encode` — reading and encoding are inverse to each other.
-/

namespace ChainFs.Superblock

variable {superblock : Superblock} {bytes bytes' : ByteArray}

theorem size_signature : signature.size = 8 := by
  decide

/-! ## Fields -/

/-- The shifted size is a 32-bit number for the codes up to the largest one, and for no others: with
any other code, its only bit is shifted out of the number. -/
theorem shift_lt_iff {code : Nat} :
    1 <<< (smallestExponent + code) < 2 ^ 32 ↔ code ≤ largestSizeCode := by
  rw [Nat.one_shiftLeft, Nat.pow_lt_pow_iff_right (by decide), smallestExponent, largestSizeCode]
  omega

/-- What a byte string starts with that reads as a superblock: its fields, one behind the other. -/
structure Holds (bytes : ByteArray) (superblock : Superblock) : Prop where
  fits : encodedSize ≤ bytes.size
  signature_eq : bytes.extract 0 8 = signature
  version_eq : Bytes.get bytes 8 = version
  code_le : (Bytes.get bytes 9).toNat ≤ largestSizeCode
  blockSize_eq : superblock.blockSize.toNat = 2 ^ (smallestExponent + (Bytes.get bytes 9).toNat)
  blockCount_eq : superblock.blockCount.toNat = Bytes.number bytes 10 4
  allocCount_eq : superblock.allocCount.toNat = Bytes.number bytes allocCountOffset 4

theorem of_decode (h : decode bytes = .ok superblock) : Holds bytes superblock := by
  unfold decode at h
  split at h
  · cases h
  rename_i hfits
  split at h
  · cases h
  rename_i hsignature
  split at h
  · cases h
  rename_i hversion
  split at h
  · cases h
  rename_i hcode
  obtain rfl := Except.ok.inj h
  have hcode := Nat.le_of_not_lt hcode
  refine ⟨Nat.le_of_not_lt hfits, ByteArray.ext (not_not.mp hsignature), not_not.mp hversion,
    hcode, ?_, ?_, ?_⟩
  · rw [← Nat.one_shiftLeft]
    exact UInt32.toNat_ofNat_of_lt' (shift_lt_iff.mpr hcode)
  · exact UInt32.toNat_ofNat_of_lt' (Bytes.number_lt bytes 10 4)
  · exact UInt32.toNat_ofNat_of_lt' (Bytes.number_lt bytes 14 4)

/-- A byte string reads as a superblock exactly if it starts with its fields. -/
theorem decode_eq_ok_iff : decode bytes = .ok superblock ↔ Holds bytes superblock := by
  refine ⟨of_decode, fun holds => ?_⟩
  have hblockSize : UInt32.ofNat (1 <<< (smallestExponent + (Bytes.get bytes 9).toNat))
      = superblock.blockSize := by
    rw [Nat.one_shiftLeft, ← holds.blockSize_eq, UInt32.ofNat_toNat]
  have hallocCount : Bytes.number bytes 14 4 = superblock.allocCount.toNat :=
    holds.allocCount_eq.symm
  unfold decode
  rw [if_neg (Nat.not_lt.mpr holds.fits),
    if_neg (not_not.mpr (congrArg ByteArray.data holds.signature_eq)),
    if_neg (not_not.mpr holds.version_eq), if_neg (Nat.not_lt.mpr holds.code_le), hblockSize,
    ← holds.blockCount_eq, hallocCount, UInt32.ofNat_toNat, UInt32.ofNat_toNat]

/-- What does not read as a superblock is no volume. -/
theorem decode_cases (bytes : ByteArray) :
    (∃ superblock, decode bytes = .ok superblock) ∨
      ∃ fault, decode bytes = .error (.invalidImage fault) := by
  unfold decode
  split
  · exact .inr ⟨_, rfl⟩
  split
  · exact .inr ⟨_, rfl⟩
  split
  · exact .inr ⟨_, rfl⟩
  split
  · exact .inr ⟨_, rfl⟩
  · exact .inl ⟨_, rfl⟩

/-- The block size in a superblock is one that volumes can have. -/
theorem isBlockSize_of_decode (h : decode bytes = .ok superblock) :
    Volume.isBlockSize superblock.blockSize.toNat := by
  have hsmall : 2 ^ smallestExponent ≤ 2 ^ (smallestExponent + (Bytes.get bytes 9).toNat) :=
    Nat.pow_le_pow_right (by decide) (Nat.le_add_right ..)
  rw [Volume.isBlockSize, (of_decode h).blockSize_eq, Bool.and_eq_true, decide_eq_true_eq,
    decide_eq_true_eq]
  exact ⟨hsmall, _, rfl⟩

/-- The signature starts with the letter M. -/
theorem get_zero_of_decode (h : decode bytes = .ok superblock) : Bytes.get bytes 0 = 0x4d := by
  have hget := Bytes.get_extract bytes 0 8 0
  rw [if_pos (by omega), (of_decode h).signature_eq] at hget
  rw [← hget]
  decide

/-- Without this letter there is no signature. -/
theorem decode_of_get_zero (hfits : encodedSize ≤ bytes.size) (h : Bytes.get bytes 0 ≠ 0x4d) :
    decode bytes = .error (.invalidImage .badSignature) := by
  rw [decode, if_neg (Nat.not_lt.mpr hfits), if_pos]
  intro hsignature
  apply h
  have hget := Bytes.get_extract bytes 0 8 0
  rw [if_pos (by omega), ByteArray.ext hsignature] at hget
  rw [← hget]
  decide

/-! ## Encoded superblocks -/

/-- Block sizes are the powers of two that have a code. -/
theorem exists_code {size : Nat} (h : Volume.isBlockSize size) (hlt : size < 2 ^ 32) :
    ∃ code ≤ largestSizeCode, size = 2 ^ (smallestExponent + code) ∧
      size.log2 - smallestExponent = code := by
  simp only [Volume.isBlockSize, Bool.and_eq_true, decide_eq_true_eq] at h
  obtain ⟨hge, k, rfl⟩ := h
  have hsmall : 9 ≤ k := by
    by_contra hk
    have := Nat.pow_le_pow_right (n := 2) (by decide) (Nat.le_of_lt_succ (Nat.lt_of_not_le hk))
    omega
  have hlarge : k < 32 := by
    by_contra hk
    have := Nat.pow_le_pow_right (n := 2) (by decide) (Nat.le_of_not_lt hk)
    omega
  refine ⟨k - 9, ?_, ?_, ?_⟩
  · rw [largestSizeCode]
    omega
  · rw [smallestExponent, Nat.add_sub_cancel' hsmall]
  · rw [Nat.log2_two_pow, smallestExponent]

/-- The bytes of a superblock one by one. -/
theorem get_encode (superblock : Superblock) :
    (∀ i < 8, Bytes.get superblock.encode i = Bytes.get signature i) ∧
      Bytes.get superblock.encode 8 = version ∧
      Bytes.get superblock.encode 9
        = UInt8.ofNat (superblock.blockSize.toNat.log2 - smallestExponent) ∧
      Bytes.number superblock.encode 10 4 = superblock.blockCount.toNat ∧
      Bytes.number superblock.encode 14 4 = superblock.allocCount.toNat := by
  have hsignature := size_signature
  have hpair : ∀ a b : UInt8, [a, b].toByteArray.size = 2 := fun _ _ => rfl
  unfold encode
  refine ⟨fun i hi => ?_, ?_, ?_, ?_, ?_⟩
  · rw [Bytes.get_append_left (by simp [hpair]; omega),
      Bytes.get_append_left (by simp [hpair]; omega),
      Bytes.get_append_left (by omega)]
  · rw [Bytes.get_append_left (by simp [hpair]; omega),
      Bytes.get_append_left (by simp [hpair]; omega),
      Bytes.get_append_right (by omega), hsignature]
    rfl
  · rw [Bytes.get_append_left (by simp [hpair]; omega),
      Bytes.get_append_left (by simp [hpair]; omega),
      Bytes.get_append_right (by omega), hsignature]
    rfl
  · rw [Bytes.number_append_left (by simp [hpair]; omega),
      Bytes.number_append_right (by simp [hpair]; omega), Bytes.number_ofNumber]
    exact Nat.mod_eq_of_lt superblock.blockCount.toNat_lt
  · rw [Bytes.number_append_right (by simp [hpair]; omega), Bytes.number_ofNumber]
    exact Nat.mod_eq_of_lt superblock.allocCount.toNat_lt

@[simp] theorem size_encode (superblock : Superblock) : superblock.encode.size = encodedSize := by
  have hsignature := size_signature
  have hpair : ∀ a b : UInt8, [a, b].toByteArray.size = 2 := fun _ _ => rfl
  simp only [encode, ByteArray.size_append, Bytes.size_ofNumber, hpair, hsignature]
  rfl

/-- The bytes of a superblock are read back, whatever follows them. -/
theorem decode_encode (hsize : Volume.isBlockSize superblock.blockSize.toNat)
    (hlength : encodedSize ≤ bytes.size)
    (h : ∀ i < encodedSize, Bytes.get bytes i = Bytes.get superblock.encode i) :
    decode bytes = .ok superblock := by
  obtain ⟨code, hcode, hpow, hlog⟩ := exists_code hsize superblock.blockSize.toNat_lt
  obtain ⟨hsignature, hversion, hbyte, hblocks, hcount⟩ := get_encode superblock
  have hencoded : encodedSize = 18 := rfl
  have hlargest : largestSizeCode = 22 := rfl
  have hcode' : (Bytes.get bytes 9).toNat = code := by
    rw [h 9 (by decide), hbyte, hlog, UInt8.toNat_ofNat']
    exact Nat.mod_eq_of_lt (by omega)
  have hnumber : ∀ start, start + 4 ≤ encodedSize →
      Bytes.number bytes start 4 = Bytes.number superblock.encode start 4 :=
    fun start hstart => Bytes.number_congr fun k hk => h _ (by omega)
  refine decode_eq_ok_iff.mpr ⟨hlength, ?_, ?_, hcode' ▸ hcode, hcode' ▸ hpow, ?_, ?_⟩
  · have hsig := size_signature
    refine Bytes.ext_get (by rw [ByteArray.size_extract]; omega) fun i hi => ?_
    rw [ByteArray.size_extract] at hi
    rw [Bytes.get_extract, if_pos (by omega), Nat.zero_add, h i (by omega), hsignature i (by omega)]
  · rw [h 8 (by decide), hversion]
  · rw [hnumber 10 (by decide), hblocks]
  · rw [allocCountOffset, hnumber 14 (by decide), hcount]

/-- Another count of blocks in use changes just this. -/
theorem decode_recount (hsize : bytes'.size = bytes.size)
    (h : ∀ i < allocCountOffset, Bytes.get bytes' i = Bytes.get bytes i)
    (hdecode : decode bytes = .ok superblock) :
    decode bytes' = .ok { superblock with
      allocCount := UInt32.ofNat (Bytes.number bytes' allocCountOffset 4) } := by
  have holds := of_decode hdecode
  have hoffset : allocCountOffset = 14 := rfl
  have hcode := h 9 (by decide)
  refine decode_eq_ok_iff.mpr ⟨hsize ▸ holds.fits, ?_, ?_, ?_, ?_, ?_, ?_⟩
  · rw [Bytes.extract_congr hsize fun i _ hi => h i (by omega), holds.signature_eq]
  · rw [h 8 (by decide), holds.version_eq]
  · rw [hcode]
    exact holds.code_le
  · rw [hcode]
    exact holds.blockSize_eq
  · rw [Bytes.number_congr fun k hk => h (10 + k) (by omega)]
    exact holds.blockCount_eq
  · exact UInt32.toNat_ofNat_of_lt' (Bytes.number_lt bytes' allocCountOffset 4)

/-! ## Reading and encoding -/

/-- The block size is one of those with a code, a power of two from 512 on that fits in 32 bits. -/
def Coded (superblock : Superblock) : Prop :=
  ∃ k, 9 ≤ k ∧ k ≤ 31 ∧ superblock.blockSize.toNat = 2 ^ k

/-- A byte string starts with the encoding of a superblock. -/
def Heads (superblock : Superblock) (bytes : ByteArray) : Prop :=
  ∃ rest, bytes = superblock.encode ++ rest

theorem isBlockSize_of_coded (h : superblock.Coded) :
    Volume.isBlockSize superblock.blockSize.toNat := by
  obtain ⟨k, hge, -, hsize⟩ := h
  rw [Volume.isBlockSize, hsize, Bool.and_eq_true, decide_eq_true_eq, decide_eq_true_eq]
  exact ⟨Nat.pow_le_pow_right (n := 2) (by decide) hge, k, rfl⟩

theorem decode_of_heads (hsize : superblock.Coded) (h : superblock.Heads bytes) :
    decode bytes = .ok superblock := by
  obtain ⟨rest, rfl⟩ := h
  refine decode_encode (isBlockSize_of_coded hsize) ?_ fun i hi => Bytes.get_append_left ?_
  · rw [ByteArray.size_append, size_encode]
    exact Nat.le_add_right ..
  · rwa [size_encode]

namespace Holds

variable (h : Holds bytes superblock)
include h

/-- Only block sizes that have a code are read. -/
theorem coded : superblock.Coded := by
  have hsmallest : smallestExponent = 9 := rfl
  have hlargest : largestSizeCode = 22 := rfl
  have hcode := h.code_le
  exact ⟨smallestExponent + (Bytes.get bytes 9).toNat, by omega, by omega, h.blockSize_eq⟩

/-- A superblock is encoded as the bytes it was read from. -/
theorem encode_eq : superblock.encode = bytes.extract 0 encodedSize := by
  have hfits := h.fits
  have hlength : encodedSize = 18 := rfl
  have hoffset : allocCountOffset = 14 := rfl
  have hcode : UInt8.ofNat (superblock.blockSize.toNat.log2 - smallestExponent)
      = Bytes.get bytes 9 := by
    rw [h.blockSize_eq, Nat.log2_two_pow, Nat.add_sub_cancel_left, UInt8.ofNat_toNat]
  have hpair : [Bytes.get bytes 8, Bytes.get bytes 9].toByteArray
      = [Bytes.get bytes 8].toByteArray ++ [Bytes.get bytes 9].toByteArray := rfl
  rw [encode, hcode, ← h.version_eq, hpair, ← h.signature_eq, h.blockCount_eq, h.allocCount_eq,
    Bytes.singleton_get (by omega), Bytes.singleton_get (by omega),
    Bytes.ofNumber_number 4 (by omega), Bytes.ofNumber_number 4 (by omega)]
  -- each field begins where the one in front of it ends
  simp only [hoffset, hlength, Nat.reduceAdd]
  rw [Bytes.extract_append_extract (by omega) (by omega),
    Bytes.extract_append_extract (by omega) (by omega),
    Bytes.extract_append_extract (by omega) (by omega),
    Bytes.extract_append_extract (by omega) (by omega)]

theorem heads : superblock.Heads bytes := by
  refine ⟨bytes.extract encodedSize bytes.size, ?_⟩
  rw [h.encode_eq, Bytes.extract_append_extract (Nat.zero_le _) h.fits]
  exact ByteArray.extract_zero_size.symm

end Holds

/-- **Reading undoes encoding, and encoding undoes reading.** A byte string that starts with the
encoding of a superblock reads as this superblock, whatever the counts are and whatever follows. A
byte string that reads as a superblock has its encoding as the first 18 bytes. Every byte string
that starts with no such encoding is refused as no volume. -/
theorem decode_iff_encode (bytes : ByteArray) :
    (∀ superblock : Superblock, superblock.Coded → superblock.Heads bytes →
      decode bytes = .ok superblock) ∧
    (∀ superblock, decode bytes = .ok superblock →
      superblock.Coded ∧ superblock.encode.size = 18 ∧ superblock.encode = bytes.extract 0 18) ∧
    ((∀ superblock : Superblock, superblock.Coded → ¬ superblock.Heads bytes) →
      ∃ fault, decode bytes = .error (.invalidImage fault)) := by
  refine ⟨fun superblock => decode_of_heads, fun superblock h => ?_, fun hnone => ?_⟩
  · have holds := of_decode h
    exact ⟨holds.coded, size_encode superblock, holds.encode_eq⟩
  · refine (decode_cases bytes).resolve_left ?_
    rintro ⟨superblock, h⟩
    have holds := of_decode h
    exact hnone superblock holds.coded holds.heads

/-- Blocks of the largest size, none of them on the volume, and as many in use as can be said. -/
def extreme : Superblock :=
  ⟨2147483648, 0, 4294967295⟩

/-- Such a superblock is read back with bytes behind it, but not with its last byte cut off. -/
theorem decode_iff_encode_extreme :
    decode (extreme.encode ++ [7, 7].toByteArray) = .ok extreme ∧
      extreme.encode = (extreme.encode ++ [7, 7].toByteArray).extract 0 18 ∧
      ∃ fault, decode (extreme.encode.extract 0 17) = .error (.invalidImage fault) := by
  obtain ⟨hread, hencoded, -⟩ := decode_iff_encode (extreme.encode ++ [7, 7].toByteArray)
  have hextreme := hread extreme ⟨31, by decide, by decide, rfl⟩ ⟨_, rfl⟩
  refine ⟨hextreme, (hencoded extreme hextreme).2.2, ?_⟩
  refine (decode_iff_encode (extreme.encode.extract 0 17)).2.2 fun superblock _ hheads => ?_
  obtain ⟨rest, hrest⟩ := hheads
  have hsize := congrArg ByteArray.size hrest
  have hlength : encodedSize = 18 := rfl
  rw [ByteArray.size_extract, ByteArray.size_append, size_encode, size_encode] at hsize
  omega

end ChainFs.Superblock
