import ChainFs.Bytes

/-!
# Text out of any bytes

A name that is not UTF-8 still has to be told to whoever reads the error. What is text in it is
kept. Where a character breaks off, or no character can start, a replacement character stands for
the bytes up to the first one that could not follow: a character cut short is one break, however
many of its bytes are there, and a byte that starts no character is a break of its own.

* `followers` — the bytes that may follow the first one of a character;
* `brokenSize` — how many bytes a break takes;
* `lossy` — the text;
* `lossyChars_append`, `lossy_toUTF8` — what is text in front of the first break is kept.
-/

namespace ChainFs.Text

/-- How many bytes follow the first byte of a character, and the least and the greatest byte that
may come second. The narrower ranges keep out longer forms than need be, surrogates, and all that is
beyond the last code point. None follow a byte that starts no character. -/
def followers (lead : UInt8) : Nat × UInt8 × UInt8 :=
  if 0xc2 ≤ lead ∧ lead ≤ 0xdf then (1, 0x80, 0xbf)
  else if lead = 0xe0 then (2, 0xa0, 0xbf)
  else if lead = 0xed then (2, 0x80, 0x9f)
  else if 0xe1 ≤ lead ∧ lead ≤ 0xef then (2, 0x80, 0xbf)
  else if lead = 0xf0 then (3, 0x90, 0xbf)
  else if 0xf1 ≤ lead ∧ lead ≤ 0xf3 then (3, 0x80, 0xbf)
  else if lead = 0xf4 then (3, 0x80, 0x8f)
  else (0, 0x80, 0xbf)

/-- How many bytes from a place on, `count` at most, go on with a character: the first one between
the given bounds, the others anywhere among the bytes that start none. -/
def goingOn (bytes : ByteArray) (place : Nat) : (count : Nat) → (least greatest : UInt8) → Nat
  | 0, _, _ => 0
  | count + 1, least, greatest =>
    if place < bytes.size ∧ least ≤ Bytes.get bytes place ∧ Bytes.get bytes place ≤ greatest then
      goingOn bytes (place + 1) count 0x80 0xbf + 1
    else 0

/-- How many bytes one replacement character stands for, if no character starts at `bytes`. -/
def brokenSize (bytes : ByteArray) : Nat :=
  let start := followers (Bytes.get bytes 0)
  goingOn bytes 1 start.1 start.2.1 start.2.2 + 1

theorem brokenSize_pos (bytes : ByteArray) : 0 < brokenSize bytes :=
  Nat.succ_pos _

/-- The characters of the text. -/
def lossyChars (bytes : ByteArray) : List Char :=
  if bytes.size = 0 then []
  else
    match bytes.utf8DecodeChar? 0 with
    | some char => char :: lossyChars (bytes.extract char.utf8Size bytes.size)
    | none => '\ufffd' :: lossyChars (bytes.extract (brokenSize bytes) bytes.size)
termination_by bytes.size
decreasing_by
  all_goals rw [ByteArray.size_extract, Nat.min_self]
  · have := Char.utf8Size_pos char
    omega
  · have := brokenSize_pos bytes
    omega

/-- The bytes as text. -/
def lossy (bytes : ByteArray) : String :=
  String.ofList (lossyChars bytes)

/-- The text in front of the first break is kept. -/
theorem lossyChars_append (chars : List Char) (bytes : ByteArray) :
    lossyChars (chars.utf8Encode ++ bytes) = chars ++ lossyChars bytes := by
  induction chars with
  | nil => rw [List.utf8Encode_nil, ByteArray.empty_append, List.nil_append]
  | cons char rest ih =>
    have hsize : [char].utf8Encode.size = char.utf8Size := by
      rw [List.utf8Encode_singleton, List.size_toByteArray, String.length_utf8EncodeChar]
    have hpos := char.utf8Size_pos
    rw [List.utf8Encode_cons, ByteArray.append_assoc, lossyChars,
      if_neg (by rw [ByteArray.size_append]; omega),
      List.utf8DecodeChar?_utf8Encode_singleton_append]
    dsimp only
    rw [ByteArray.extract_append_eq_right hsize.symm ByteArray.size_append, ih, List.cons_append]

/-- Bytes that are text are told as they are. -/
theorem lossy_toUTF8 (text : String) : lossy text.toUTF8 = text := by
  have hbytes : text.toUTF8 = text.toList.utf8Encode ++ ByteArray.empty := by
    rw [ByteArray.append_empty, String.utf8Encode_toList, String.toUTF8_eq_toByteArray]
  have hempty : lossyChars ByteArray.empty = [] := by
    rw [lossyChars, if_pos ByteArray.size_empty]
  rw [lossy, hbytes, lossyChars_append, hempty, List.append_nil, String.ofList_toList]

end ChainFs.Text
