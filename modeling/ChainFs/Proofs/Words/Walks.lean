import ChainFs.Proofs.Directory.Located
import ChainFs.Proofs.Words.Chains
import ChainFs.Proofs.Words.Records

/-!
# Walks through directories on a machine

A walk starts wherever a record says, even outside the data region, and follows links until it has
followed too many. It may visit one block more than the bitmap can speak of.

* `Words.Walk` — a cursor that counts the blocks it may still visit, with `Walk.next`, `Walk.seek`
  and `Walk.drain`;
* `Cursor.Small`, `Node.Small` — numbers that stay far below the largest word;
* `Words.Walk.seek_of`, `Words.Walk.drain_of` — a walk does not crash.

A walk has two measures. The blocks that may still be visited go down when a link is followed, and
inside a block each step moves on by a record at least; the number of turns it may take is made of
both.
-/

namespace ChainFs

/-- The addresses of a node are small. -/
structure Node.Small (node : Node) : Prop where
  address_lt : node.record.address < 2 ^ 61
  record_lt : ∀ x, node.recordAddress = some x → x < 2 ^ 62

namespace Cursor

variable {σ : Type} [Store σ] {layout : Layout} {store : σ}

/-- The numbers of a cursor are small. The records seen so far lie in the blocks behind it. -/
structure Small (layout : Layout) (cursor : Cursor) : Prop where
  block_lt : cursor.block < 2 ^ 61
  offset_le : cursor.offset ≤ layout.blockSize
  budget_le : cursor.budget ≤ layout.bitmapBits
  liveSize_le : cursor.liveSize
    ≤ (layout.bitmapBits - cursor.budget) * layout.blockSize + cursor.offset

theorem small_start (regular : layout.Regular) {address : Nat} (h : address < 2 ^ 61) :
    (start layout address).Small layout where
  block_lt := h
  offset_le := Nat.le_trans (show firstRecord ≤ 512 by decide) regular.blockSize_ge
  budget_le := Nat.le_refl _
  liveSize_le := Nat.zero_le _

/-- The records of a walk fill at most the volume. -/
theorem Small.liveSize_lt {cursor : Cursor} (small : cursor.Small layout)
    (regular : layout.Regular) : cursor.liveSize < 2 ^ 62 := by
  have hvisited : layout.bitmapBits - cursor.budget < 2 ^ 32 :=
    Nat.lt_of_le_of_lt (Nat.sub_le ..) regular.bitmapBits_lt
  have hblock := regular.blockAddress_lt hvisited
  have := small.liveSize_le
  have := small.offset_le
  have := regular.blockSize_lt
  omega

/-- The search in a block does not leave it. -/
theorem firstLive_le {blockSize offset : Nat} {bytes : ByteArray} (h : offset ≤ bytes.size) :
    offset ≤ (firstLive blockSize bytes offset).1 ∧
      (firstLive blockSize bytes offset).1 ≤ bytes.size := by
  fun_induction firstLive blockSize bytes offset with
  | case1 offset => exact ⟨Nat.le_refl _, h⟩
  | case2 offset record length slot _ ih =>
    obtain ⟨-, hend⟩ := Slot.length_bounds (by rw [slot]; rfl)
    have := ih hend
    omega
  | case3 offset => exact ⟨Nat.le_refl _, h⟩
  | case4 offset code length slot ih =>
    obtain ⟨-, hend⟩ := Slot.length_bounds (by rw [slot]; rfl)
    have := ih hend
    omega
  | case5 offset length slot ih =>
    obtain ⟨-, hend⟩ := Slot.length_bounds (by rw [slot]; rfl)
    have := ih hend
    omega

section

variable {liveSize budget block offset : Nat} {finished : Bool}

/-- A cursor moves on inside its block, over records of `seen` bytes. -/
theorem Small.moved (h : Small layout ⟨block, offset, liveSize, budget, finished⟩) (seen : Nat)
    {place : Nat} (hseen : offset + seen ≤ place) (hplace : place ≤ layout.blockSize)
    (finished' : Bool) :
    Small layout ⟨block, place, liveSize + seen, budget, finished'⟩ where
  block_lt := h.block_lt
  offset_le := hplace
  budget_le := h.budget_le
  liveSize_le := by
    have := h.liveSize_le
    dsimp only at *
    omega

/-- A cursor follows a link. -/
theorem Small.followed {target : Nat} (regular : layout.Regular)
    (h : Small layout ⟨block, offset, liveSize, budget + 1, finished⟩) (htarget : target < 2 ^ 61) :
    Small layout ⟨target, firstRecord, liveSize, budget, finished⟩ where
  block_lt := htarget
  offset_le := (small_start regular htarget).offset_le
  budget_le := Nat.le_of_succ_le h.budget_le
  liveSize_le := by
    have hlive := h.liveSize_le
    have hbudget := h.budget_le
    have hoffset := h.offset_le
    dsimp only at *
    have hsplit : layout.bitmapBits - budget = layout.bitmapBits - (budget + 1) + 1 := by omega
    rw [hsplit, Nat.succ_mul]
    omega

/-- The free rest of a block is behind the place where the search for it began. -/
theorem vacant_bounds {bytes : ByteArray} {place : Nat}
    (hread : Store.read store block layout.blockSize = .ok bytes)
    (hoffset : offset ≤ layout.blockSize)
    (h : firstLive layout.blockSize bytes offset = (place, none)) :
    offset ≤ place ∧ place ≤ layout.blockSize := by
  rw [← Store.size_read hread] at hoffset
  obtain ⟨hle, hend⟩ : offset ≤ (firstLive layout.blockSize bytes offset).1 ∧ _ :=
    firstLive_le hoffset
  rw [h, Store.size_read hread] at hend
  rw [h] at hle
  exact ⟨hle, hend⟩

/-- A search for the next node keeps the numbers small. -/
theorem small_nextFrom (regular : layout.Regular)
    (h : Small layout ⟨block, offset, liveSize, budget, false⟩) :
    (nextFrom layout store liveSize budget block offset).1.Small layout := by
  fun_induction nextFrom layout store liveSize budget block offset with
  | case1 => exact h.moved 0 (Nat.le_refl _) h.offset_le true
  | case2 budget block offset bytes hread place record length hlive =>
    have hsize := Store.size_read hread
    obtain ⟨hle, -, hend⟩ := firstLive_bounds hlive
    exact h.moved length (by omega) (by omega) false
  | case3 budget block offset bytes hread place hlive =>
    obtain ⟨hle, hplace⟩ := vacant_bounds hread h.offset_le hlive
    exact h.moved 0 hle hplace true
  | case4 budget block offset bytes hread place hlive =>
    obtain ⟨hle, hplace⟩ := vacant_bounds hread h.offset_le hlive
    exact h.moved 0 hle hplace true
  | case5 block offset bytes hread place hlive =>
    obtain ⟨hle, hplace⟩ := vacant_bounds hread h.offset_le hlive
    exact h.moved 0 hle hplace true
  | case6 block offset bytes hread place hlive target hnext hne budget ih =>
    exact ih (h.followed regular (Words.next_lt regular hnext))

end

/-- A step keeps the numbers small. -/
theorem Small.next {cursor moved : Cursor} {found : Option (Except Error Node)}
    (small : cursor.Small layout) (regular : layout.Regular)
    (h : cursor.next layout store = (moved, found)) : moved.Small layout := by
  have hmoved : moved = (cursor.next layout store).1 := congrArg Prod.fst h.symm
  rw [hmoved, Cursor.next]
  split
  · exact small
  · exact small_nextFrom regular (small.moved 0 (Nat.le_refl _) small.offset_le false)

/-- The addresses of a node that a walk finds are small. -/
theorem ReadFrom.small {cursor : Cursor} {node : Node} (h : ReadFrom layout store cursor node)
    (small : cursor.Small layout) (regular : layout.Regular) : node.Small := by
  obtain ⟨bytes, place, -, hslot, hrecord, hoffset, hend⟩ := h
  obtain ⟨number, hnumber, haddress⟩ := Slot.address_of_record hslot
  refine ⟨haddress ▸ regular.blockAddress_lt hnumber, fun x hx => ?_⟩
  obtain rfl := Option.some.inj (hrecord.symm.trans hx)
  have hblock := small.block_lt
  have hsize := regular.blockSize_lt
  omega

/-- A search keeps the numbers small, and so are those of the node found. -/
theorem seek_small (regular : layout.Regular) {wanted : Node → Bool} {cursor moved : Cursor}
    {found : Option Node} (small : cursor.Small layout)
    (h : cursor.seek layout store wanted = .ok (moved, found)) :
    moved.Small layout ∧ ∀ node, found = some node → node.Small := by
  obtain ⟨hmoved, hfound⟩ := seek_keeps (P := Small layout)
    (fun small hnext => small.next regular hnext) small h
  exact ⟨hmoved, fun node hnode => (hfound node hnode).small hmoved regular⟩

end Cursor

namespace Words

variable {σ : Type} [Store σ]

/-! ## Steps -/

/-- A cursor together with how many blocks may still be visited, the one it is in included. -/
structure Walk where
  cursor : Cursor
  visits : Nat

/-- How many steps a walk may take: one for each place in each block that it may visit. -/
def walkTurns (limits : Limits) (layout : Layout) : Nat :=
  limits.walk * (layout.blockSize + 1)

namespace Walk

/-- The start of the directory whose first block is at `address`. -/
def start (limits : Limits) (layout : Layout) (address : Nat) : Checked Walk := do
  let blocks ← bitmapBlocks layout
  let budget ← mul (← mul blocks 8) layout.blockSize
  return {
    cursor := {
      block := address, offset := Cursor.firstRecord, liveSize := 0, budget, finished := false }
    visits := limits.walk }

/-- Looks for the next node from `offset` of `block` on; `budget` links may still be followed, the
records seen so far take `liveSize` bytes, and `visits` blocks may be visited. -/
def nextFrom (layout : Layout) (store : σ) (liveSize : Nat) :
    (visits budget block offset : Nat) → Checked (Walk × Option Node)
  | 0, _, _, _ => crash .endless
  | visits + 1, budget, block, offset => do
    let bytes ← read store block layout.blockSize
    let (place, live?) ← firstLive layout.blockSize bytes block (layout.blockSize + 1) offset
    match live? with
    | some (record, length) =>
      let recordAddress ← add block place
      let stop ← add place length
      let seen ← add liveSize length
      return (⟨⟨block, stop, seen, budget, false⟩, visits + 1⟩, some ⟨record, some recordAddress⟩)
    | none =>
      let target ← Words.next layout store block
      if target = 0 then return (⟨⟨block, place, liveSize, budget, true⟩, visits + 1⟩, none)
      else if budget = 0 then refuse (.invalidImage (.endlessDirectory block))
      else
        let left ← sub budget 1
        nextFrom layout store liveSize visits left target Cursor.firstRecord

/-- Moves on to the next node. -/
def next (layout : Layout) (store : σ) (walk : Walk) : Checked (Walk × Option Node) :=
  if walk.cursor.finished then return (walk, none)
  else nextFrom layout store walk.cursor.liveSize walk.visits walk.cursor.budget
    walk.cursor.block walk.cursor.offset

/-- Walks up to the first node that is `wanted`, in at most `turns` steps. -/
def seek (layout : Layout) (store : σ) (wanted : Node → Bool) :
    (turns : Nat) → Walk → Checked (Walk × Option Node)
  | 0, _ => crash .endless
  | turns + 1, walk => do
    match ← walk.next layout store with
    | (walk, none) => return (walk, none)
    | (walk, some node) =>
      if wanted node then return (walk, some node) else seek layout store wanted turns walk

/-- Walks to the end, in at most `turns` steps, and appends the nodes to those `seen` before. -/
def drain (layout : Layout) (store : σ) :
    (turns : Nat) → Array Node → Walk → Checked (Walk × Array Node)
  | 0, _, _ => crash .endless
  | turns + 1, seen, walk => do
    match ← walk.next layout store with
    | (walk, none) => return (walk, seen)
    | (walk, some node) => drain layout store turns (seen.push node) walk

/-- A cursor that may visit as many more blocks as it may follow links. -/
def of (cursor : Cursor) : Walk :=
  ⟨cursor, cursor.budget + 1⟩

/-- How many steps are enough for a cursor: one for each place in the rest of its block and in each
block that may follow, and one to find the end. -/
def turnsFor (layout : Layout) (cursor : Cursor) : Nat :=
  cursor.budget * (layout.blockSize + 1) + (layout.blockSize - cursor.offset) + 1

/-- What a step of a cursor comes to. -/
def answer : Cursor × Option (Except Error Node) → Except Error (Walk × Option Node)
  | (cursor, none) => .ok (of cursor, none)
  | (cursor, some (.ok node)) => .ok (of cursor, some node)
  | (_, some (.error e)) => .error e

variable {layout : Layout} (regular : layout.Regular)
include regular

theorem start_eq (address : Nat) :
    start (.of layout) layout address = .ok (of (.start layout address)) := by
  have hbits := regular.bitmapBits_lt
  have hblocks := Nat.le_mul_of_pos_right (layout.bitmapBlocks * 8) regular.blockSize_pos
  rw [Layout.bitmapBits] at hbits
  rw [start, bitmapBlocks_eq regular, Limits.of_walk]
  simp (disch := omega) only [mul_eq, Checked.ok_bind]
  rfl

section

variable {store : σ} {liveSize budget block offset : Nat}

/-- What is done with a block that was read. -/
theorem nextFrom_read (small : Cursor.Small layout ⟨block, offset, liveSize, budget, false⟩)
    {bytes : ByteArray} (hread : Store.read store block layout.blockSize = .ok bytes) :
    nextFrom layout store liveSize (budget + 1) budget block offset =
      match Cursor.firstLive layout.blockSize bytes offset with
      | (place, some (record, length)) =>
        .ok (of ⟨block, place + length, liveSize + length, budget, false⟩,
          some ⟨record, some (block + place)⟩)
      | (place, none) => (do
        let target ← Checked.of (Chain.next layout store block)
        if target = 0 then return (of ⟨block, place, liveSize, budget, true⟩, none)
        else if budget = 0 then refuse (.invalidImage (.endlessDirectory block))
        else
          let left ← sub budget 1
          nextFrom layout store liveSize budget left target Cursor.firstRecord) := by
  have hsize := Store.size_read hread
  have hsmall := regular.blockSize_lt
  have hblock : block < 2 ^ 61 := small.block_lt
  have hoffset : offset ≤ bytes.size := hsize ▸ small.offset_le
  rw [nextFrom, read, hread, Checked.of_ok, Checked.ok_bind,
    firstLive_eq hsmall (hsize ▸ hsmall) hoffset hblock (by omega), Checked.ok_bind]
  rcases hlive : Cursor.firstLive layout.blockSize bytes offset with
    ⟨place, _ | ⟨record, length⟩⟩
  · dsimp only
    rw [next_of regular]
    rfl
  · obtain ⟨hle, -, hend⟩ := Cursor.firstLive_bounds hlive
    have hseen : liveSize < 2 ^ 62 := small.liveSize_lt regular
    simp (disch := omega) only [add_eq, Checked.ok_bind]
    rfl

/-- One block more than links may be followed is enough, as each of the other blocks was reached by
a link. -/
theorem nextFrom_of (small : Cursor.Small layout ⟨block, offset, liveSize, budget, false⟩) :
    nextFrom layout store liveSize (budget + 1) budget block offset
      = .of (answer (Cursor.nextFrom layout store liveSize budget block offset)) := by
  fun_induction Cursor.nextFrom layout store liveSize budget block offset with
  | case1 budget block offset e hread =>
    rw [nextFrom, read, hread]
    rfl
  | case2 budget block offset bytes hread place record length hlive =>
    rw [nextFrom_read regular small hread, hlive]
    rfl
  | case3 budget block offset bytes hread place hlive e hnext =>
    rw [nextFrom_read regular small hread, hlive]
    dsimp only
    rw [hnext]
    rfl
  | case4 budget block offset bytes hread place hlive hnext =>
    rw [nextFrom_read regular small hread, hlive]
    dsimp only
    rw [hnext]
    rfl
  | case5 block offset bytes hread place hlive target hnext hne =>
    rw [nextFrom_read regular small hread, hlive]
    dsimp only
    rw [hnext, Checked.of_ok, Checked.ok_bind, if_neg hne]
    rfl
  | case6 block offset bytes hread place hlive target hnext hne budget ih =>
    rw [nextFrom_read regular small hread, hlive]
    dsimp only
    rw [hnext, Checked.of_ok, Checked.ok_bind, if_neg hne, if_neg (Nat.succ_ne_zero _),
      sub_eq (Nat.le_add_left 1 budget), Checked.ok_bind]
    exact ih (small.followed regular (next_lt regular hnext))

end

/-! ## Whole walks -/

variable {store : σ} {cursor : Cursor}

theorem next_of (small : cursor.Small layout) :
    (of cursor).next layout store = .of (answer (cursor.next layout store)) := by
  obtain ⟨block, offset, liveSize, budget, finished⟩ := cursor
  cases finished with
  | true => rfl
  | false => exact nextFrom_of regular small

omit regular in
/-- A step uses up a turn for a place in a block, or all the turns for a block. -/
theorem turnsFor_next {moved : Cursor} {node : Node}
    (h : cursor.next layout store = (moved, some (.ok node))) :
    turnsFor layout moved < turnsFor layout cursor := by
  rw [turnsFor, turnsFor]
  rcases Cursor.next_progress h with hless | ⟨hsame, hless⟩
  · have hblock := Nat.mul_le_mul_right (layout.blockSize + 1) (Nat.succ_le_of_lt hless)
    rw [Nat.succ_mul] at hblock
    omega
  · rw [hsame]
    omega

theorem seek_of (small : cursor.Small layout) (wanted : Node → Bool) {turns : Nat}
    (henough : turnsFor layout cursor ≤ turns) :
    seek layout store wanted turns (of cursor)
      = .of ((fun r => (of r.1, r.2)) <$> cursor.seek layout store wanted) := by
  fun_induction cursor.seek layout store wanted generalizing turns with
  | case1 cursor after hnext =>
    obtain _ | turns := turns
    · exact absurd henough (Nat.not_succ_le_zero _)
    rw [seek, next_of regular small, hnext]
    rfl
  | case2 cursor after e hnext =>
    obtain _ | turns := turns
    · exact absurd henough (Nat.not_succ_le_zero _)
    rw [seek, next_of regular small, hnext]
    rfl
  | case3 cursor after node hnext hwanted =>
    obtain _ | turns := turns
    · exact absurd henough (Nat.not_succ_le_zero _)
    rw [seek, next_of regular small, hnext]
    exact if_pos hwanted
  | case4 cursor after node hnext hwanted ih =>
    obtain _ | turns := turns
    · exact absurd henough (Nat.not_succ_le_zero _)
    rw [seek, next_of regular small, hnext]
    refine (if_neg hwanted).trans ?_
    exact ih (small.next regular hnext)
      (Nat.le_of_lt_succ (Nat.lt_of_lt_of_le (turnsFor_next hnext) henough))

theorem drain_of (small : cursor.Small layout) (seen : Array Node) {turns : Nat}
    (henough : turnsFor layout cursor ≤ turns) :
    drain layout store turns seen (of cursor)
      = .of ((fun r => (of r.1, r.2)) <$> cursor.drain layout store seen) := by
  fun_induction cursor.drain layout store seen generalizing turns with
  | case1 seen cursor after hnext =>
    obtain _ | turns := turns
    · exact absurd henough (Nat.not_succ_le_zero _)
    rw [drain, next_of regular small, hnext]
    rfl
  | case2 seen cursor after e hnext =>
    obtain _ | turns := turns
    · exact absurd henough (Nat.not_succ_le_zero _)
    rw [drain, next_of regular small, hnext]
    rfl
  | case3 seen cursor after node hnext ih =>
    obtain _ | turns := turns
    · exact absurd henough (Nat.not_succ_le_zero _)
    rw [drain, next_of regular small, hnext]
    exact ih (small.next regular hnext)
      (Nat.le_of_lt_succ (Nat.lt_of_lt_of_le (turnsFor_next hnext) henough))

omit regular in
theorem turnsFor_start (address : Nat) :
    turnsFor layout (.start layout address) ≤ walkTurns (.of layout) layout := by
  rw [walkTurns, Limits.of_walk, Nat.succ_mul]
  exact Nat.add_le_add_left (Nat.succ_le_succ (Nat.sub_le ..)) _

end Walk

end Words

end ChainFs
