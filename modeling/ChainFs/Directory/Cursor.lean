import ChainFs.Chain
import ChainFs.Directory.Record

/-!
# Walking through a directory

A cursor runs through the records of a directory, block by block along the chain, and rests
between any two. Deleted entries, records of unknown kind and records whose name is no text are
passed over.

* `Node` — an entry together with the place of its record;
* `Cursor.next` — one step: a node, a failure, or nothing at the end;
* `Cursor.seek`, `Cursor.drain` — walk up to a wanted node, walk to the end.

A walk ends, also on a chain that runs in circles: `Cursor.budget` is the number of links that may
still be followed, and within a block the offset grows.

The size of the entries is added up on the way, so that a walk to the end of a directory also knows
how long its records are, and where the next one would go.
-/

namespace ChainFs

/-- An entry and where its record stands; the root has no record. -/
structure Node where
  record : Record
  recordAddress : Option Nat
  deriving DecidableEq, Repr

namespace Node

/-- The root directory. -/
def root (layout : Layout) : Node :=
  ⟨Record.root layout.dataAddress, none⟩

def isDirectory (node : Node) : Bool :=
  node.record.isDirectory

end Node

/-- A place in a directory. -/
structure Cursor where
  /-- The block the cursor is in. -/
  block : Nat
  /-- Where in that block the next record is expected. -/
  offset : Nat
  /-- How many bytes the records of the nodes seen so far take. -/
  liveSize : Nat
  /-- How many links may still be followed before the chain counts as endless. -/
  budget : Nat
  finished : Bool
  deriving DecidableEq, Repr

namespace Cursor

variable {σ : Type} [Store σ]

/-- Records start behind the link to the next block. -/
def firstRecord : Nat :=
  Layout.linkSize

/-- The start of the directory whose first block is at `address`. -/
def start (layout : Layout) (address : Nat) : Cursor where
  block := address
  offset := firstRecord
  liveSize := 0
  budget := layout.bitmapBits
  finished := false

/-- From `offset` on, the first record of a block that stands for an entry, with its length;
otherwise the end of the records. -/
def firstLive (blockSize : Nat) (block : ByteArray) (offset : Nat) : Nat × Option (Record × Nat) :=
  match _slot : Slot.decode blockSize block offset with
  | .vacant => (offset, none)
  | .record record length =>
    if record.address = 0 then firstLive blockSize block (offset + length)
    else (offset, some (record, length))
  | .unknownKind _ length => firstLive blockSize block (offset + length)
  | .malformedName length => firstLive blockSize block (offset + length)
termination_by block.size - offset
decreasing_by
  all_goals
    have bounds := @Slot.length_bounds blockSize offset length block (by rw [_slot]; rfl)
    omega

/-- The entry found lies behind the starting point and inside the block. -/
theorem firstLive_bounds {blockSize offset found length : Nat} {block : ByteArray} {record : Record}
    (h : firstLive blockSize block offset = (found, some (record, length))) :
    offset ≤ found ∧ found < found + length ∧ found + length ≤ block.size := by
  fun_induction firstLive blockSize block offset with
  | case1 => cases h
  | case2 offset record length slot _ ih =>
    have bounds := Slot.length_bounds (by rw [slot]; rfl)
    have := ih h
    omega
  | case3 offset record length slot =>
    have bounds := Slot.length_bounds (by rw [slot]; rfl)
    cases h
    omega
  | case4 offset code length slot ih =>
    have bounds := Slot.length_bounds (by rw [slot]; rfl)
    have := ih h
    omega
  | case5 offset length slot ih =>
    have bounds := Slot.length_bounds (by rw [slot]; rfl)
    have := ih h
    omega

/-- Looks for the next node from `offset` of `block` on; `budget` links may still be followed, and
the records seen so far take `liveSize` bytes. -/
def nextFrom (layout : Layout) (store : σ) (liveSize : Nat) :
    (budget block offset : Nat) → Cursor × Option (Except Error Node)
  | budget, block, offset =>
    match Store.read store block layout.blockSize with
    | .error e => (⟨block, offset, liveSize, budget, true⟩, some (.error e))
    | .ok bytes =>
      match firstLive layout.blockSize bytes offset with
      | (offset, some (record, length)) =>
        (⟨block, offset + length, liveSize + length, budget, false⟩,
          some (.ok ⟨record, some (block + offset)⟩))
      | (offset, none) =>
        match Chain.next layout store block with
        | .error e => (⟨block, offset, liveSize, budget, true⟩, some (.error e))
        | .ok target =>
          if target = 0 then (⟨block, offset, liveSize, budget, true⟩, none)
          else
            match budget with
            | 0 =>
              (⟨block, offset, liveSize, budget, true⟩,
                some (.error (.invalidImage (.endlessDirectory block))))
            | budget + 1 => nextFrom layout store liveSize budget target firstRecord

/-- Moves on to the next node. After the last one and after a failure there is nothing more. -/
def next (layout : Layout) (store : σ) (cursor : Cursor) : Cursor × Option (Except Error Node) :=
  if cursor.finished then (cursor, none)
  else nextFrom layout store cursor.liveSize cursor.budget cursor.block cursor.offset

/-- A step to a node follows a link or moves on inside its block. -/
theorem nextFrom_progress {layout : Layout} {store : σ} {liveSize budget block offset : Nat}
    {cursor : Cursor} {node : Node}
    (h : nextFrom layout store liveSize budget block offset = (cursor, some (.ok node))) :
    cursor.budget < budget ∨
      cursor.budget = budget ∧ offset < cursor.offset ∧ cursor.offset ≤ layout.blockSize := by
  induction budget generalizing block offset with
  | zero =>
    unfold nextFrom at h
    split at h
    · cases h
    · rename_i bytes hread
      have size := Store.size_read hread
      split at h
      · rename_i found record length live
        have bounds := firstLive_bounds live
        cases h
        right
        exact ⟨rfl, by dsimp only; omega, by dsimp only; omega⟩
      · split at h
        · cases h
        · split at h <;> cases h
  | succ budget ih =>
    unfold nextFrom at h
    split at h
    · cases h
    · rename_i bytes hread
      have size := Store.size_read hread
      split at h
      · rename_i found record length live
        have bounds := firstLive_bounds live
        cases h
        right
        exact ⟨rfl, by dsimp only; omega, by dsimp only; omega⟩
      · split at h
        · cases h
        · split at h
          · cases h
          · have := ih h
            omega

/-- A step to a node comes closer to the end of the walk. -/
theorem next_progress {layout : Layout} {store : σ} {cursor moved : Cursor} {node : Node}
    (h : cursor.next layout store = (moved, some (.ok node))) :
    moved.budget < cursor.budget ∨ moved.budget = cursor.budget ∧
      layout.blockSize - moved.offset < layout.blockSize - cursor.offset := by
  unfold next at h
  split at h
  · cases h
  · have := nextFrom_progress h
    omega

/-- Walks up to the first node that is `wanted`. -/
def seek (layout : Layout) (store : σ) (wanted : Node → Bool) (cursor : Cursor) :
    Except Error (Cursor × Option Node) :=
  match _step : cursor.next layout store with
  | (cursor, none) => .ok (cursor, none)
  | (_, some (.error e)) => .error e
  | (cursor, some (.ok node)) =>
    if wanted node then .ok (cursor, some node) else seek layout store wanted cursor
termination_by (cursor.budget, layout.blockSize - cursor.offset)
decreasing_by
  simp only [Prod.lex_def]
  exact next_progress _step

/-- Walks to the end and appends the nodes to those `seen` before. -/
def drain (layout : Layout) (store : σ) (seen : Array Node) (cursor : Cursor) :
    Except Error (Cursor × Array Node) :=
  match _step : cursor.next layout store with
  | (cursor, none) => .ok (cursor, seen)
  | (_, some (.error e)) => .error e
  | (cursor, some (.ok node)) => drain layout store (seen.push node) cursor
termination_by (cursor.budget, layout.blockSize - cursor.offset)
decreasing_by
  simp only [Prod.lex_def]
  exact next_progress _step

end Cursor

end ChainFs
