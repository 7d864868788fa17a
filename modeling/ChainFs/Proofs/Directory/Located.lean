import ChainFs.Directory.Basic
import ChainFs.Proofs.Directory.Slots
import ChainFs.Proofs.Volume.Opened

/-!
# Where a walk can get to

Walks through directories of which nothing is known: the blocks may hold any bytes, and the links
may run in circles.

* `Node.Located` — a node whose record stands in a block of the data region;
* `Cursor.next_ok` — a step to a node has read the node's record in the block the cursor is in;
* `Cursor.next_isBlock` — a walk that starts in the data region does not leave it;
* `Directory.find_located`, `Directory.isBlock_of_tailFor` — so what is found there is located, and
  the end of the directory is in the data region as well.

The first block of a node is named by its record, and nobody has checked it. Only where a walk
starts is this address asked for; behind that, every block was reached by a link, and links are
checked.
-/

namespace ChainFs

/-- The node's first block is at a block boundary, and its record, if it has one, stands in the data
region. -/
structure Node.Located (layout : Layout) (node : Node) : Prop where
  aligned : node.record.address % layout.blockSize = 0
  inside : ∀ x, node.recordAddress = some x →
    layout.dataAddress ≤ x ∧ x + Record.headerSize ≤ layout.endAddress

/-- The address in a record is made of a 32-bit block number. -/
theorem Slot.address_of_record {blockSize offset length : Nat} {block : ByteArray} {record : Record}
    (h : decode blockSize block offset = .record record length) :
    ∃ number < 2 ^ 32, record.address = number * blockSize :=
  ⟨_, Bytes.number_lt block (offset + 1) 4, (of_decode h).address_eq⟩

namespace Cursor

variable {σ : Type} [Store σ] {layout : Layout} {store : σ} {cursor moved : Cursor}

/-- The entry found in a block was read where it was found. -/
theorem decode_of_firstLive {blockSize offset found length : Nat} {block : ByteArray}
    {record : Record} (h : firstLive blockSize block offset = (found, some (record, length))) :
    Slot.decode blockSize block found = .record record length ∧ record.address ≠ 0 := by
  fun_induction firstLive blockSize block offset with
  | case1 => cases h
  | case2 offset record' length' slot hzero ih => exact ih h
  | case3 offset record' length' slot hzero =>
    cases h
    exact ⟨slot, hzero⟩
  | case4 offset code length' slot ih => exact ih h
  | case5 offset length' slot ih => exact ih h

/-- A node was read from the block that the cursor has come to. -/
def ReadFrom (layout : Layout) (store : σ) (cursor : Cursor) (node : Node) : Prop :=
  ∃ bytes place, Store.read store cursor.block layout.blockSize = .ok bytes ∧
    Slot.decode layout.blockSize bytes place = .record node.record node.record.encodedSize ∧
    node.recordAddress = some (cursor.block + place) ∧
    cursor.offset = place + node.record.encodedSize ∧ cursor.offset ≤ layout.blockSize

/-- A search for the next node ends with one that was read from the block it ended in. -/
theorem nextFrom_ok {liveSize budget block offset : Nat} {node : Node}
    (h : nextFrom layout store liveSize budget block offset = (moved, some (.ok node))) :
    ReadFrom layout store moved node := by
  fun_induction nextFrom layout store liveSize budget block offset with
  | case1 => cases h
  | case2 budget block _ bytes hread found record length hlive =>
    obtain ⟨hslot, -⟩ := decode_of_firstLive hlive
    obtain ⟨rfl, hend, -⟩ := Slot.length_of_record hslot
    rw [Store.size_read hread] at hend
    cases h
    exact ⟨bytes, found, hread, hslot, rfl, rfl, hend⟩
  | case3 => cases h
  | case4 => cases h
  | case5 => cases h
  | case6 => rename_i ih; exact ih h

/-- Links lead from one block of the data region to another. -/
theorem nextFrom_isBlock {liveSize budget block offset : Nat} (hblock : layout.IsBlock block) :
    layout.IsBlock (nextFrom layout store liveSize budget block offset).1.block := by
  fun_induction nextFrom layout store liveSize budget block offset with
  | case1 => exact hblock
  | case2 => exact hblock
  | case3 => exact hblock
  | case4 => exact hblock
  | case5 => exact hblock
  | case6 =>
    rename_i htarget hne _ ih
    exact ih ((Chain.isBlock_of_next htarget).resolve_left hne)

/-- A step to a node has read the node's record in the block the cursor is in. -/
theorem next_ok {node : Node} (h : cursor.next layout store = (moved, some (.ok node))) :
    ReadFrom layout store moved node := by
  unfold next at h
  split at h
  · cases h
  · exact nextFrom_ok h

/-- A step does not leave the data region. -/
theorem next_isBlock {found : Option (Except Error Node)} (hblock : layout.IsBlock cursor.block)
    (h : cursor.next layout store = (moved, found)) : layout.IsBlock moved.block := by
  have hmoved : moved = (cursor.next layout store).1 := congrArg Prod.fst h.symm
  rw [hmoved, next]
  split
  · exact hblock
  · exact nextFrom_isBlock hblock

/-- A node read in the data region is located. -/
theorem ReadFrom.located {node : Node} (h : ReadFrom layout store cursor node)
    (hblock : layout.IsBlock cursor.block) : node.Located layout := by
  obtain ⟨bytes, place, hread, hslot, hrecord, hoffset, hend⟩ := h
  obtain ⟨number, -, haddress⟩ := Slot.address_of_record hslot
  refine ⟨haddress ▸ Nat.mul_mod_left .., fun x hx => ?_⟩
  obtain rfl := Option.some.inj (hrecord.symm.trans hx)
  have hdata := hblock.inData.1
  have hblockEnd := hblock.end_le
  rw [Record.encodedSize] at hoffset
  omega

/-- What every step keeps a search keeps, and what it finds was read where it ended. -/
theorem seek_keeps {P : Cursor → Prop}
    (hnext : ∀ {cursor moved found}, P cursor → cursor.next layout store = (moved, found) → P moved)
    {wanted : Node → Bool} {found : Option Node} (hcursor : P cursor)
    (h : cursor.seek layout store wanted = .ok (moved, found)) :
    P moved ∧ ∀ node, found = some node → ReadFrom layout store moved node := by
  fun_induction cursor.seek layout store wanted with
  | case1 cursor after hstep =>
    cases h
    exact ⟨hnext hcursor hstep, fun node hnode => nomatch hnode⟩
  | case2 => cases h
  | case3 cursor after node hstep hwanted =>
    cases h
    refine ⟨hnext hcursor hstep, fun node' hnode => ?_⟩
    cases hnode
    exact next_ok hstep
  | case4 cursor after node hstep hwanted ih => exact ih (hnext hcursor hstep) h

/-- A search does not leave the data region, and what it finds is located. -/
theorem seek_located {wanted : Node → Bool} {found : Option Node}
    (hblock : layout.IsBlock cursor.block)
    (h : cursor.seek layout store wanted = .ok (moved, found)) :
    layout.IsBlock moved.block ∧ ∀ node, found = some node → node.Located layout := by
  obtain ⟨hmoved, hfound⟩ := seek_keeps (P := fun cursor => layout.IsBlock cursor.block)
    next_isBlock hblock h
  exact ⟨hmoved, fun node hnode => (hfound node hnode).located hmoved⟩

end Cursor

/-! ## Directories of a volume that opens -/

namespace Directory

variable {σ : Type} [Store σ] {layout : Layout} {store : σ} {address : Nat} {name : String}

/-- What is found was searched for. -/
theorem seek_of_find {node : Node} (h : find layout store address name = .ok (some node)) :
    ∃ cursor, (Cursor.start layout address).seek layout store (·.record.name = name)
      = .ok (cursor, some node) := by
  simp only [find, bind, Except.bind] at h
  split at h
  · cases h
  rename_i result hseek
  obtain ⟨cursor, found⟩ := result
  obtain rfl : found = some node := Except.ok.inj h
  exact ⟨cursor, hseek⟩

/-- The end of a directory is where a search in vain has ended. -/
theorem seek_of_tailFor {tail : Cursor} (h : tailFor layout store address name = .ok tail) :
    (Cursor.start layout address).seek layout store (·.record.name = name)
      = .ok (tail, none) := by
  simp only [tailFor, bind, Except.bind] at h
  split at h
  · cases h
  rename_i result hseek
  obtain ⟨cursor, found⟩ := result
  cases found with
  | some node => cases h
  | none =>
    obtain rfl := Except.ok.inj h
    exact hseek

/-- What a directory in the data region has under a name is located. -/
theorem find_located {node : Node} (haddress : layout.IsBlock address)
    (h : find layout store address name = .ok (some node)) : node.Located layout := by
  obtain ⟨cursor, hseek⟩ := seek_of_find h
  exact (Cursor.seek_located haddress hseek).2 node rfl

/-- A directory in the data region ends there. -/
theorem isBlock_of_tailFor {tail : Cursor} (haddress : layout.IsBlock address)
    (h : tailFor layout store address name = .ok tail) : layout.IsBlock tail.block :=
  (Cursor.seek_located haddress (seek_of_tailFor h)).1

end Directory

end ChainFs
