import ChainFs.Proofs.Chain.Payload
import ChainFs.Proofs.Words.Blocks

/-!
# Chains on a machine

A chain may lead anywhere in the data region, and in circles. A read and a write still come to an
end, because each of them may visit only as many blocks as hold the bytes it asks for.

* `Words.readRange`, `Words.writeRange` — a read and a write that count the blocks they visit;
* `Words.readRange_of`, `Words.writeRange_of` — they do not crash, so the blocks are enough.

How many more blocks may be visited is an argument of the loops that goes down with every block, and
running out of it is a crash. To show that there is none, the loop keeps an inequality: the blocks
that may still be visited hold at least the bytes that are still to be read or written.
-/

namespace ChainFs.Words

variable {σ : Type} [Store σ]

/-! ## Links -/

/-- The address of the block behind the one at `address`, zero at the end of the chain. -/
def next (layout : Layout) (store : σ) (address : Nat) : Checked Nat := do
  let block ← readNumber 4 store address
  let target ← blockAddress layout block
  let inside ← inData layout target
  if target ≠ 0 ∧ ¬ inside then refuse (.invalidAddress target) else return target

/-- Lets the block at `address` be followed by the one at `target`. -/
def link (layout : Layout) (address target : Nat) : Changing σ Unit := do
  let block ← check (blockNumber layout target)
  writeNumber 4 address block

/-- The next block of a chain; at its end a new block is taken and linked. -/
def nextOrExtend (layout : Layout) (address : Nat) : Changing σ Nat := do
  let target ← ask (next layout · address)
  if target ≠ 0 then pure target
  else do
    let added ← acquire layout
    link layout address added
    return added

variable {layout : Layout}

theorem readNumber_lt {store : σ} {width offset n : Nat}
    (h : Store.readNumber width store offset = .ok n) : n < 256 ^ width := by
  simp only [Store.readNumber, bind, Except.bind] at h
  split at h
  · cases h
  · rename_i bytes _
    obtain rfl := Except.ok.inj h
    exact Bytes.number_lt bytes 0 width

/-- A link that can be followed leads to a small address. -/
theorem next_lt (regular : layout.Regular) {store : σ} {address target : Nat}
    (h : Chain.next layout store address = .ok target) : target < 2 ^ 61 := by
  rcases Chain.isBlock_of_next h with rfl | hblock
  · decide
  · exact regular.isBlock_lt hblock

theorem nextOrExtend_lt (regular : layout.Regular) {address target : Nat}
    (h : (Chain.nextOrExtend layout address : Edit σ Nat).Answers target) : target < 2 ^ 61 := by
  obtain ⟨found, hnext, h⟩ := h.of_bind
  obtain ⟨store, hnext⟩ := hnext.of_ask
  split at h
  · obtain rfl := h.of_pure
    exact next_lt regular hnext
  · obtain ⟨added, hadded, h⟩ := h.of_bind
    obtain ⟨_, -, h⟩ := h.of_bind
    obtain rfl := h.of_pure
    exact Nat.lt_trans (lt_end_of_acquire hadded) regular.endAddress_lt

section

variable (regular : layout.Regular)
include regular

theorem next_of (store : σ) (address : Nat) :
    next layout store address = .of (Chain.next layout store address) := by
  refine Checked.bind_of rfl fun block hblock => ?_
  rw [blockAddress_eq regular (readNumber_lt hblock), Checked.ok_bind, inData_eq regular,
    Checked.ok_bind]
  simp only [decide_eq_true_eq]
  split <;> rfl

theorem link_of (address target : Nat) :
    (link layout address target : Changing σ Unit) = .of (Chain.link layout address target) :=
  Changing.bind_of (Changing.check_of (blockNumber_of regular target)) fun _ _ => rfl

theorem nextOrExtend_of (address : Nat) :
    (nextOrExtend layout address : Changing σ Nat) = .of (Chain.nextOrExtend layout address) := by
  refine Changing.bind_of (Changing.ask_of fun store => next_of regular store address)
    fun target _ => ?_
  split
  · rfl
  · refine Changing.bind_of (acquire_of regular) fun added _ => ?_
    exact Changing.bind_of (link_of regular address added) fun _ _ => rfl

end

/-! ## Reading -/

/-- Appends to `out` what a chain holds of `[offset, stop)` from the block at `address` on, which
holds the payload from `position` on. The loop may visit `visits` blocks. -/
def gather (layout : Layout) (store : σ) (payload offset stop : Nat) :
    (visits address position : Nat) → ByteArray → Checked ByteArray
  | visits, address, position, out =>
    if address = 0 ∨ stop ≤ position then return out
    else
      match visits with
      | 0 => crash .endless
      | visits + 1 => do
        let blockEnd ← add position payload
        let bytes ← piece address position blockEnd
        if blockEnd < stop then
          let target ← next layout store address
          gather layout store payload offset stop visits target blockEnd (out ++ bytes)
        else gather layout store payload offset stop visits address blockEnd (out ++ bytes)
where
  /-- The part of `[offset, stop)` that lies in a block. -/
  piece (address position blockEnd : Nat) : Checked ByteArray :=
    if offset < blockEnd then do
      let first := max offset position
      let length ← sub (min stop blockEnd) first
      let start ← add (← add address Layout.linkSize) (← sub first position)
      read store start length
    else return ByteArray.empty

/-- Reads `length` bytes at `offset` of a payload of `total` bytes, fewer where the payload or the
chain ends before. -/
def readRange (limits : Limits) (layout : Layout) (store : σ) (start total offset length : Nat) :
    Checked ByteArray :=
  if total ≤ offset ∨ length = 0 then return ByteArray.empty
  else do
    -- the sum is cut off at the largest word
    let stop := min (min (offset + length) (limit - 1)) total
    let payload ← payloadSize layout
    -- the room for the answer
    let _ ← sub stop offset
    gather layout store payload offset stop
      (limits.chain (min (offset + length) total)) start 0 ByteArray.empty

theorem piece_of {store : σ} {offset stop address position : Nat} (haddress : address < 2 ^ 61)
    (hstop : stop < 2 ^ 32) (hoffset : offset < stop) (hposition : position < stop) :
    gather.piece store offset stop address position (position + layout.payloadSize)
      = .of (Chain.piece layout store offset stop address position) := by
  rw [gather.piece, Chain.piece]
  split
  · have hlink : Layout.linkSize = 4 := rfl
    simp (disch := omega) only [sub_eq, add_eq, Checked.ok_bind]
    rfl
  · rfl

/-- The loop ends where all is read. -/
theorem gather_end {store : σ} {payload offset stop visits address position : Nat}
    (h : stop ≤ position) (out : ByteArray) :
    gather layout store payload offset stop visits address position out = .ok out := by
  rw [gather.eq_def]
  exact if_pos (.inr h)

/-- As long as blocks may be visited for all that is left to read, none is missing. -/
theorem gather_of (regular : layout.Regular) {store : σ} {offset stop visits address position : Nat}
    (haddress : address < 2 ^ 61) (hstop : stop < 2 ^ 32) (hoffset : offset < stop)
    (henough : stop ≤ position + visits * layout.payloadSize) (hposition : position < stop)
    (out : ByteArray) :
    gather layout store layout.payloadSize offset stop visits address position out
      = .of (Chain.gather layout store offset stop visits address position out) := by
  -- on the blocks that may still be visited, which hold all that is left to read
  induction visits generalizing address position out with
  | zero => omega
  | succ visits ih =>
    have hpayload : layout.payloadSize ≤ layout.blockSize := Nat.sub_le ..
    have hsize := regular.blockSize_lt
    rw [gather, Chain.gather]
    by_cases hzero : address = 0
    · rw [if_pos (.inl hzero), if_pos hzero]
      rfl
    rw [if_neg (by omega), if_neg hzero, add_eq (by omega), Checked.ok_bind]
    refine Checked.bind_of (piece_of haddress hstop hoffset hposition) fun bytes _ => ?_
    by_cases hmore : position + layout.payloadSize < stop
    · rw [if_pos hmore, if_pos hmore]
      refine Checked.bind_of (next_of regular store address) fun target htarget => ?_
      exact ih (next_lt regular htarget) (by rw [Nat.succ_mul] at henough; omega) hmore _
    · -- the loop looks once more and ends, whatever it may still visit
      rw [if_neg hmore, if_neg hmore, gather_end (by omega)]
      rfl

theorem readRange_of (regular : layout.Regular) {store : σ} {start total : Nat}
    (hstart : start < 2 ^ 61) (htotal : total < 2 ^ 32) (offset length : Nat) :
    readRange (.of layout) layout store start total offset length
      = .of (Chain.readRange layout store start total offset length) := by
  have hpayload := Chain.payloadSize_pos regular
  rw [readRange, Chain.readRange]
  split
  · rfl
  have hstop : min (min (offset + length) (limit - 1)) total = min (offset + length) total := by
    rw [limit]
    omega
  dsimp only
  rw [hstop, payloadSize_eq regular, Checked.ok_bind, sub_eq (by omega), Checked.ok_bind,
    Chain.visitsFor, if_neg (Nat.ne_of_gt hpayload), Limits.of_chain]
  have henough := Chain.le_blocksFor_mul regular (min (offset + length) total)
  exact gather_of regular hstart (by omega) (by omega) (by omega) (by omega) _

/-! ## Writing -/

/-- The block that lies `count` blocks further on, and how many of the `visits` blocks may still be
visited there. -/
def advance (layout : Layout) : (count visits address : Nat) → Changing σ (Nat × Nat)
  | 0, visits, address => pure (visits, address)
  | _ + 1, 0, _ => check (crash .endless)
  | count + 1, visits + 1, address => do
    let target ← nextOrExtend layout address
    advance layout count visits target

/-- Writes the data from `written` on into the payloads of successive blocks, the first at `inBlock`
of the block at `address`. The loop may visit `visits` blocks. -/
def writeLoop (layout : Layout) (payload : Nat) (data : ByteArray) :
    (visits address inBlock written : Nat) → Changing σ Unit
  | 0, _, _, _ => check (crash .endless)
  | visits + 1, address, inBlock, written => do
    let room ← check (sub payload inBlock)
    let left ← check (sub data.size written)
    let stop ← check (add written (min room left))
    let piece ← check (slice data written stop)
    let place ← check (do add (← add address Layout.linkSize) inBlock)
    write place piece
    if stop = data.size then pure ()
    else do
      let target ← nextOrExtend layout address
      writeLoop layout payload data visits target 0 stop

/-- Writes `data` at `offset` of the chain that starts at `start`. -/
def writeRange (limits : Limits) (layout : Layout) (start offset : Nat) (data : ByteArray) :
    Changing σ Unit := do
  let inside ← check (inData layout start)
  if ¬ inside then check (refuse (.invalidAddress start))
  else if data.size = 0 then pure ()
  else do
    let payload ← check (payloadSize layout)
    let count ← check (div offset payload)
    let (visits, address) ← advance layout count (limits.chain (offset + data.size)) start
    let inBlock ← check (mod offset payload)
    writeLoop layout payload data visits address inBlock 0

/-- An advance that may visit `rest` blocks more than it takes leaves these. -/
theorem advance_bind_of (regular : layout.Regular) {β : Type} {f : Nat × Nat → Changing σ β}
    {g : Nat → Edit σ β} {count rest address : Nat} (haddress : address < 2 ^ 61)
    (h : ∀ target < 2 ^ 61, f (rest, target) = .of (g target)) :
    advance layout count (count + rest) address >>= f
      = .of (Chain.advance layout count address >>= g) := by
  induction count generalizing address with
  | zero =>
    rw [Nat.zero_add]
    exact h address haddress
  | succ count ih =>
    rw [Nat.succ_add, advance, Chain.advance, bind_assoc, bind_assoc]
    refine Changing.bind_of (nextOrExtend_of regular address) fun target htarget => ?_
    exact ih (nextOrExtend_lt regular htarget)

/-- A part that is cut off at the end of a byte string. -/
theorem extract_of_size_le {data : ByteArray} {first stop : Nat} (h : data.size ≤ stop) :
    data.extract first stop = data.extract first data.size := by
  refine Bytes.ext_get ?_ fun i hi => ?_
  · rw [ByteArray.size_extract, ByteArray.size_extract]
    omega
  · rw [ByteArray.size_extract] at hi
    rw [Bytes.get_extract, Bytes.get_extract, if_pos (by omega), if_pos (by omega)]

/-- A turn of the loop writes up to the end of the block or of the data, and moves on if there is
more. -/
theorem writeLoop_succ (regular : layout.Regular) {data : ByteArray}
    {address inBlock written : Nat} (visits : Nat) (haddress : address < 2 ^ 61)
    (hdata : data.size < 2 ^ 64) (hinBlock : inBlock < layout.payloadSize)
    (hwritten : written < data.size) :
    (writeLoop layout layout.payloadSize data (visits + 1) address inBlock written :
        Changing σ Unit) = (do
      write (address + Layout.linkSize + inBlock)
        (data.extract written (written + (layout.payloadSize - inBlock)))
      if data.size ≤ written + (layout.payloadSize - inBlock) then pure ()
      else do
        let target ← nextOrExtend layout address
        writeLoop layout layout.payloadSize data visits target 0
          (written + (layout.payloadSize - inBlock))) := by
  have hsize := regular.blockSize_lt
  have hpayload : layout.payloadSize ≤ layout.blockSize := Nat.sub_le ..
  have hlink : Layout.linkSize = 4 := rfl
  rw [writeLoop]
  simp (disch := omega) only [sub_eq, add_eq, slice_eq, Checked.ok_bind, Changing.check_ok_bind]
  by_cases hlast : data.size ≤ written + (layout.payloadSize - inBlock)
  · have hstop : written + min (layout.payloadSize - inBlock) (data.size - written)
        = data.size := by omega
    rw [hstop, extract_of_size_le hlast, if_pos rfl, if_pos hlast]
  · have hstop : min (layout.payloadSize - inBlock) (data.size - written)
        = layout.payloadSize - inBlock := by omega
    rw [hstop, if_neg (by omega), if_neg hlast]

/-- As long as blocks may be visited for all that is left to write, none is missing. -/
theorem writeLoop_of (regular : layout.Regular) {data : ByteArray}
    {visits address inBlock written : Nat} (haddress : address < 2 ^ 61)
    (hdata : data.size < 2 ^ 64) (hinBlock : inBlock < layout.payloadSize)
    (hwritten : written < data.size)
    (henough : data.size ≤ written + (layout.payloadSize - inBlock)
      + visits * layout.payloadSize) :
    (writeLoop layout layout.payloadSize data (visits + 1) address inBlock written :
        Changing σ Unit)
      = .of (Chain.writePieces layout address inBlock (Chain.pieces layout.payloadSize data
          (visits + 1) written (layout.payloadSize - inBlock))) := by
  induction visits generalizing address inBlock written with
  | zero =>
    have hlast : data.size ≤ written + (layout.payloadSize - inBlock) := by omega
    rw [writeLoop_succ regular 0 haddress hdata hinBlock hwritten, Chain.pieces, if_pos hlast,
      if_pos hlast]
    exact bind_pure_unit
  | succ visits ih =>
    rw [writeLoop_succ regular _ haddress hdata hinBlock hwritten, Chain.pieces]
    by_cases hlast : data.size ≤ written + (layout.payloadSize - inBlock)
    · rw [if_pos hlast, if_pos hlast]
      exact bind_pure_unit
    · rw [if_neg hlast, if_neg hlast, Chain.writePieces]
      · refine Changing.bind_of rfl fun _ _ => ?_
        refine Changing.bind_of (nextOrExtend_of regular address) fun target htarget => ?_
        refine ih (nextOrExtend_lt regular htarget) (by omega) (by omega) ?_
        rw [Nat.succ_mul] at henough
        omega
      · exact List.cons_ne_nil _ _

/-- The blocks up to an offset and the blocks behind it. -/
theorem blocksFor_add (regular : layout.Regular) (offset size : Nat) :
    Chain.blocksFor layout (offset + size) = offset / layout.payloadSize
      + Chain.blocksFor layout (offset % layout.payloadSize + size) := by
  have hpos := Chain.payloadSize_pos regular
  have hsplit : offset + size + layout.payloadSize - 1
      = layout.payloadSize * (offset / layout.payloadSize)
        + (offset % layout.payloadSize + size + layout.payloadSize - 1) := by
    have := Nat.div_add_mod offset layout.payloadSize
    omega
  rw [Chain.blocksFor, hsplit, Nat.mul_add_div hpos]
  rfl

theorem writeRange_of (regular : layout.Regular) {data : ByteArray} (hdata : data.size < 2 ^ 64)
    (start offset : Nat) :
    (writeRange (.of layout) layout start offset data : Changing σ Unit)
      = .of (Chain.writeRange layout start offset data) := by
  have hpos := Chain.payloadSize_pos regular
  have hmod := Nat.mod_lt offset hpos
  rw [writeRange, Chain.writeRange]
  rw [inData_eq regular, Changing.check_ok_bind]
  simp only [decide_eq_true_eq]
  split
  · rfl
  rename_i hinside
  split
  · rfl
  have hstart := Nat.lt_trans (not_not.mp hinside).2 regular.endAddress_lt
  rw [payloadSize_eq regular, Changing.check_ok_bind, div_eq hpos, Changing.check_ok_bind,
    Limits.of_chain, blocksFor_add regular]
  refine advance_bind_of regular hstart fun target htarget => ?_
  rw [mod_eq hpos, Changing.check_ok_bind]
  -- the last block is visited as well
  have henough := Chain.le_blocksFor_mul regular (offset % layout.payloadSize + data.size)
  obtain ⟨visits, hvisits⟩ : ∃ visits, Chain.blocksFor layout
      (offset % layout.payloadSize + data.size) = visits + 1 := by
    refine Nat.exists_eq_add_one.mpr (Nat.pos_of_ne_zero fun hzero => ?_)
    rw [hzero] at henough
    omega
  rw [hvisits, Nat.succ_mul] at henough
  rw [hvisits]
  exact writeLoop_of regular htarget hdata hmod (by omega) (by omega)

end ChainFs.Words
