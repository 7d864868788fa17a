import ChainFs.Allocation.Block

/-!
# Chains of blocks

The content of a file and the records of a directory lie in a chain of blocks: each block starts
with the number of the next one, zero at the end, and the rest of it is payload.

The length of a content is not kept in its chain. It stands in the record that names the first
block, so reading is told the recorded size and stops there, or at the end of the chain if that
comes first. On a volume in order the bytes behind the recorded size are zero, since new blocks are
zero and no content ever shrinks; that is why a write behind the end has no gap to fill.

* `Chain.next`, `Chain.link` — follow a link, set a link;
* `Chain.readRange` — a stretch of the payload, as far as the chain reaches;
* `Chain.writeRange` — overwrites a stretch of the payload and lets the chain grow as needed.
-/

namespace ChainFs.Chain

variable {σ : Type} [Store σ]

/-- The address of the block behind the one at `address`, zero at the end of the chain. -/
def next (layout : Layout) (store : σ) (address : Nat) : Except Error Nat := do
  let block ← Store.readNumber 4 store address
  let target := layout.blockAddress block
  if target ≠ 0 ∧ ¬ layout.InData target then .error (.invalidAddress target) else .ok target

/-- Lets the block at `address` be followed by the one at `target`. -/
def link (layout : Layout) (address target : Nat) : Edit σ Unit := do
  let block ← Edit.ofExcept (layout.blockNumber target)
  Store.writeNumber 4 address block

/-! ### Reading -/

/-- The part of `[offset, stop)` that lies in the block at `address`, which holds the payload from
`position` on. -/
def piece (layout : Layout) (store : σ) (offset stop address position : Nat) :
    Except Error ByteArray :=
  if offset < position + layout.payloadSize then
    let first := max offset position
    Store.read store (address + Layout.linkSize + (first - position))
      (min stop (position + layout.payloadSize) - first)
  else .ok ByteArray.empty

/-- Appends to `out` the part of `[offset, stop)` that lies in the next `blocks` blocks, of which
the first is at `address` and holds the payload from `position` on. -/
def gather (layout : Layout) (store : σ) (offset stop : Nat) :
    (blocks address position : Nat) → ByteArray → Except Error ByteArray
  | 0, _, _, out => .ok out
  | blocks + 1, address, position, out =>
    if address = 0 then .ok out
    else do
      let bytes ← piece layout store offset stop address position
      let blockEnd := position + layout.payloadSize
      if blockEnd < stop then do
        let target ← next layout store address
        gather layout store offset stop blocks target blockEnd (out ++ bytes)
      else
        return out ++ bytes

/-- How many blocks hold the first `size` bytes of a payload. -/
def blocksFor (layout : Layout) (size : Nat) : Nat :=
  (size + layout.payloadSize - 1) / layout.payloadSize

/-- How many blocks a read of the first `size` bytes of a payload visits at most. Where blocks are
all link and no payload it goes on to the end of the chain. -/
def visitsFor (layout : Layout) (size : Nat) : Nat :=
  if layout.payloadSize = 0 then layout.blockCount + 1 else blocksFor layout size

/-- Reads `length` bytes at `offset` of a payload of `total` bytes, fewer where the payload or the
chain ends before. -/
def readRange (layout : Layout) (store : σ) (start total offset length : Nat) :
    Except Error ByteArray :=
  if total ≤ offset ∨ length = 0 then .ok ByteArray.empty
  else
    let stop := min (offset + length) total
    gather layout store offset stop (visitsFor layout stop) start 0 ByteArray.empty

/-! ### Writing -/

/-- The next block of a chain; at its end a new block is taken and linked. -/
def nextOrExtend (layout : Layout) (address : Nat) : Edit σ Nat := do
  let target ← Edit.ask (next layout · address)
  if target ≠ 0 then pure target
  else do
    let added ← Block.acquire layout
    link layout address added
    return added

/-- The block that lies `count` blocks further on. -/
def advance (layout : Layout) : (count address : Nat) → Edit σ Nat
  | 0, address => pure address
  | count + 1, address => do
    let target ← nextOrExtend layout address
    advance layout count target

/-- Cuts the data from `first` on into the pieces that fall into one block each: the first piece
takes up to `room` bytes, every other one up to `payload`, and there are at most `count`. -/
def pieces (payload : Nat) (data : ByteArray) : (count first room : Nat) → List ByteArray
  | 0, _, _ => []
  | count + 1, first, room =>
    data.extract first (first + room) ::
      (if data.size ≤ first + room then []
      else pieces payload data count (first + room) payload)

/-- Writes pieces into the payloads of successive blocks, the first at `inBlock` of the block at
`address`, every other one at the start of its block. -/
def writePieces (layout : Layout) (address inBlock : Nat) : List ByteArray → Edit σ Unit
  | [] => pure ()
  | [piece] => Store.write (address + Layout.linkSize + inBlock) piece
  | piece :: rest => do
    Store.write (address + Layout.linkSize + inBlock) piece
    let target ← nextOrExtend layout address
    writePieces layout target 0 rest

/-- Writes `data` at `offset` of the chain that starts at `start`. The chain grows as needed; if
the volume runs full on the way, what was written so far stays. -/
def writeRange (layout : Layout) (start offset : Nat) (data : ByteArray) : Edit σ Unit :=
  if ¬ layout.InData start then throw (.invalidAddress start)
  else if data.size = 0 then pure ()
  else do
    let payload := layout.payloadSize
    let inBlock := offset % payload
    let address ← advance layout (offset / payload) start
    writePieces layout address inBlock
      (pieces payload data (blocksFor layout (inBlock + data.size)) 0 (payload - inBlock))

end ChainFs.Chain
