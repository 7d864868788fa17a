import ChainFs.Proofs.Directory.Walk

/-!
# Directories under writes

A directory is changed in two ways only, at a record that is there and behind the last one, and both
are writes of a few bytes into one block. Which entries such a write leaves alone is a question
about the slots of that block. Here it is answered for whole directories, with the nodes in their
order and with their places, since it is by its place that a node is known later.

* `Directory.entries_congr` — the entries of a directory depend on the bytes of its blocks behind
  their links;
* `Directory.entries_restat` — a record rewritten in its place changes one entry;
* `Directory.entries_put` — a record written behind the last one is one more entry.
-/

namespace ChainFs

open Bitmap

/-- The node, with another size and mtime if its record stands at `x`. -/
def Node.restat (x : Nat) (size : UInt32) (mtime : UInt64) (node : Node) : Node :=
  if node.recordAddress = some x then { node with record := { node.record with size, mtime } }
  else node

namespace Node

variable {x : Nat} {size : UInt32} {mtime : UInt64} {node : Node}

theorem restat_of_ne (h : node.recordAddress ≠ some x) : node.restat x size mtime = node :=
  if_neg h

/-- The node whose record stands there gets the new size and mtime. -/
theorem restat_of_eq (h : node.recordAddress = some x) :
    node.restat x size mtime = { node with record := { node.record with size, mtime } } :=
  if_pos h

@[simp] theorem kind_restat : (node.restat x size mtime).record.kind = node.record.kind := by
  unfold restat
  split <;> rfl

@[simp] theorem address_restat :
    (node.restat x size mtime).record.address = node.record.address := by
  unfold restat
  split <;> rfl

@[simp] theorem name_restat : (node.restat x size mtime).record.name = node.record.name := by
  unfold restat
  split <;> rfl

@[simp] theorem isDirectory_restat : (node.restat x size mtime).isDirectory = node.isDirectory := by
  rw [isDirectory, Record.isDirectory, kind_restat, isDirectory, Record.isDirectory]

end Node

namespace Directory

variable {layout : Layout} {IsSize : Nat → Prop} {m m' : Content} {chain : List Nat}
  {a offset : Nat} {node : Node}

/-! ## Nodes and their places -/

/-- A byte of a directory block is a byte of the content. -/
theorem get_block (m : Content) (a blockSize i : Nat) :
    Bytes.get (m.window a blockSize) i = if i < blockSize then m (a + i) else 0 := by
  split
  · rename_i hi
    exact Content.get_window m hi
  · rename_i hi
    exact Bytes.get_of_size_le (by rw [Content.size_window]; omega)

/-- What is known of a node that a block holds: where its record stands, and that it ends in the
block. -/
theorem mem_nodesFrom (h : node ∈ nodesFrom layout m a offset) :
    ∃ place, node.recordAddress = some (a + place) ∧ offset ≤ place ∧
      place + node.record.encodedSize ≤ layout.blockSize ∧
      Record.headerSize < node.record.encodedSize ∧
      (place, .record node.record node.record.encodedSize)
        ∈ slots layout.blockSize (m.window a layout.blockSize) offset ∧
      node.record.address ≠ 0 := by
  obtain ⟨⟨place, slot⟩, hmem, hnode⟩ := List.mem_filterMap.mp h
  obtain ⟨record, hrecord, rfl⟩ := Option.map_eq_some_iff.mp hnode
  obtain ⟨hge, hslot, length, hlength, hpos, -, hend⟩ := bounds_of_mem hmem
  rw [Content.size_window] at hend
  cases slot with
  | record r length' =>
    obtain rfl : length' = length := Option.some.inj hlength
    have hsize := (Slot.length_of_record hslot.symm).1
    have hlive : (if r.address = 0 then none else some r) = some record := hrecord
    split at hlive
    · cases hlive
    · rename_i hne
      obtain rfl := Option.some.inj hlive
      subst hsize
      exact ⟨place, rfl, hge, hend, hpos, hmem, hne⟩
  | unknownKind code length' => cases hrecord
  | malformedName length' => cases hrecord
  | vacant => cases hrecord

/-- An entry's record lies inside one of the blocks, behind its link. -/
theorem mem_entries (h : node ∈ entries layout m chain) :
    ∃ a ∈ chain, ∃ place, node.recordAddress = some (a + place) ∧ Cursor.firstRecord ≤ place ∧
      place + node.record.encodedSize ≤ layout.blockSize ∧
      Record.headerSize < node.record.encodedSize ∧
      (place, .record node.record node.record.encodedSize)
        ∈ slots layout.blockSize (m.window a layout.blockSize) Cursor.firstRecord ∧
      node.record.address ≠ 0 := by
  obtain ⟨a, ha, hmem⟩ := List.mem_flatMap.mp h
  obtain ⟨place, hplace⟩ := mem_nodesFrom hmem
  exact ⟨a, ha, place, hplace⟩

/-- The free place is not in front of where the walk began. -/
theorem vacantIn_ge (layout : Layout) (m : Content) (a offset : Nat) :
    offset ≤ vacantIn layout m a offset :=
  le_vacantFrom ..

/-- The records of a block have room in front of its free rest. -/
theorem extent_le_vacantIn (layout : Layout) (m : Content) (a offset : Nat) :
    offset + extent (nodesFrom layout m a offset) ≤ vacantIn layout m a offset := by
  rw [nodesFrom, vacantIn]
  induction offset using slots_induction layout.blockSize (m.window a layout.blockSize) with
  | vacant offset hlength =>
    obtain ⟨hslots, hvacant⟩ := slots_vacant hlength
    rw [hslots, hvacant]
    rfl
  | step offset length hlength ih =>
    obtain ⟨hslots, hvacant⟩ := slots_step hlength
    rw [hslots, hvacant]
    rcases hnode : slotNode? a
        (offset, Slot.decode layout.blockSize (m.window a layout.blockSize) offset) with _ | node
    · rw [List.filterMap_cons_none hnode]
      omega
    · rw [List.filterMap_cons_some hnode, extent_cons]
      obtain ⟨record, hrecord, rfl⟩ := Option.map_eq_some_iff.mp hnode
      obtain rfl : length = record.encodedSize :=
        Option.some.inj (hlength.symm.trans (Slot.length?_of_record? hrecord))
      dsimp only
      omega

/-- A record of a directory stands in front of the free rest of a block. -/
theorem inBlock_of_recordAddress (h : node ∈ entries layout m chain) {x : Nat}
    (hx : node.recordAddress = some x) :
    ∃ a ∈ chain, a + Cursor.firstRecord ≤ x ∧
      x + node.record.encodedSize ≤ a + layout.blockSize ∧
      x + node.record.encodedSize ≤ a + vacantIn layout m a Cursor.firstRecord := by
  obtain ⟨a, ha, place, hplace, hge, hend, -, hslot, -⟩ := mem_entries h
  obtain rfl : a + place = x := Option.some.inj (hplace.symm.trans hx)
  obtain ⟨-, -, length, hlength, -, hvacant, -⟩ := bounds_of_mem hslot
  obtain rfl : node.record.encodedSize = length := Option.some.inj hlength
  have hfree : place + node.record.encodedSize ≤ vacantIn layout m a Cursor.firstRecord := hvacant
  exact ⟨a, ha, by omega, by omega, by omega⟩

/-- Two entries of a directory do not have their records at the same place. -/
theorem eq_of_recordAddress (regular : layout.Arranged IsSize)
    (hcovered : ∀ a ∈ chain, a ∈ layout.covered) {node' : Node}
    (h : node ∈ entries layout m chain) (h' : node' ∈ entries layout m chain)
    (heq : node.recordAddress = node'.recordAddress) : node = node' := by
  obtain ⟨a, ha, place, hplace, hge, hend, hpos, hslot, -⟩ := mem_entries h
  obtain ⟨a', ha', place', hplace', hge', hend', hpos', hslot', -⟩ := mem_entries h'
  have hsum : a + place = a' + place' := by
    rw [hplace, hplace'] at heq
    exact Option.some.inj heq
  have hblock : a = a' := regular.eq_of_inBlock (hcovered a ha) (hcovered a' ha')
    ⟨Nat.le_add_right a place, by omega⟩ ⟨by omega, by omega⟩
  obtain rfl := hblock
  obtain rfl : place = place' := by omega
  -- what a slot holds is told by its place
  have hsame := (bounds_of_mem hslot).2.1.trans (bounds_of_mem hslot').2.1.symm
  obtain ⟨record, recordAddress⟩ := node
  obtain ⟨record', recordAddress'⟩ := node'
  obtain rfl : record = record' := (Slot.record.inj hsame).1
  obtain rfl : recordAddress = recordAddress' := heq
  rfl

/-! ## What the entries depend on -/

/-- Entries depend on the bytes from where the walk begins. -/
theorem nodesFrom_congr (h : ∀ x, a + offset ≤ x → layout.InBlock a x → m' x = m x) :
    nodesFrom layout m' a offset = nodesFrom layout m a offset ∧
      vacantIn layout m' a offset = vacantIn layout m a offset := by
  have hsize : (m'.window a layout.blockSize).size = (m.window a layout.blockSize).size := by simp
  obtain ⟨hslots, hvacant⟩ := slots_congr layout.blockSize offset hsize fun i hi => by
    rw [get_block, get_block]
    split
    · exact h _ (by omega) ⟨by omega, by omega⟩
    · rfl
  exact ⟨by rw [nodesFrom, hslots, nodesFrom], hvacant⟩

/-- The entries of a directory depend on the bytes of its blocks behind their links. -/
theorem entries_congr
    (h : ∀ a ∈ chain, ∀ x, a + Layout.linkSize ≤ x → layout.InBlock a x → m' x = m x) :
    entries layout m' chain = entries layout m chain :=
  List.flatMap_congr fun a ha => (nodesFrom_congr fun x hx hin => h a ha x hx hin).1

/-- A block that is zero behind its link holds no entries. -/
theorem nodesFrom_zero (h : ∀ x, a + offset ≤ x → layout.InBlock a x → m x = 0) :
    nodesFrom layout m a offset = [] ∧ vacantIn layout m a offset = offset := by
  have hzero : ∀ i, offset ≤ i → Bytes.get (m.window a layout.blockSize) i = 0 := by
    intro i hi
    rw [get_block]
    split
    · exact h _ (by omega) ⟨by omega, by omega⟩
    · rfl
  obtain ⟨hslots, hvacant⟩ := slots_zero layout.blockSize _ hzero
  refine ⟨?_, hvacant⟩
  rw [nodesFrom, hslots]
  rfl

/-! ## A record rewritten in its place -/

/-- A slot rewritten in its place stands for the node rewritten. -/
theorem slotNode?_restatSlot (a place : Nat) (size : UInt32) (mtime : UInt64)
    (slot : Nat × Slot) :
    slotNode? a (restatSlot place size mtime slot)
      = (slotNode? a slot).map (Node.restat (a + place) size mtime) := by
  obtain ⟨offset, slot⟩ := slot
  cases slot with
  | record record length =>
    rw [restatSlot]
    by_cases hplace : offset = place
    · subst hplace
      by_cases hzero : record.address = 0 <;>
        simp [slotNode?, Slot.record?, Node.restat, hzero]
    · by_cases hzero : record.address = 0 <;>
        simp [slotNode?, Slot.record?, Node.restat, hzero, hplace]
  | unknownKind code length => rfl
  | malformedName length => rfl
  | vacant => rfl

/-- New bytes for size and mtime of an entry's record change this entry, and only in these. -/
theorem nodesFrom_restat {place : Nat} {record : Record} {length : Nat}
    (hplace : (place, .record record length)
      ∈ slots layout.blockSize (m.window a layout.blockSize) offset)
    (h : ∀ x, a + offset ≤ x → layout.InBlock a x →
      x < a + place + Record.sizeOffset ∨ a + place + Record.nameSizeOffset ≤ x → m' x = m x) :
    nodesFrom layout m' a offset = (nodesFrom layout m a offset).map (Node.restat (a + place)
        (UInt32.ofNat (m'.number (a + place + Record.sizeOffset) 4))
        (UInt64.ofNat (m'.number (a + place + Record.mtimeOffset) 8))) ∧
      vacantIn layout m' a offset = vacantIn layout m a offset := by
  have hsize : (m'.window a layout.blockSize).size = (m.window a layout.blockSize).size := by simp
  obtain ⟨-, -, length', hlength, hpos, -, hend⟩ := bounds_of_mem hplace
  rw [Content.size_window] at hend
  have hheader : Record.headerSize = 18 := rfl
  have hsizeOffset : Record.sizeOffset = 5 := rfl
  have hmtimeOffset : Record.mtimeOffset = 9 := rfl
  obtain ⟨hslots, hvacant⟩ := slots_restat hsize hplace fun i hi hor => by
    rw [get_block, get_block]
    split
    · exact h _ (by omega) ⟨by omega, by omega⟩ (by omega)
    · rfl
  rw [Content.number_window m' (by omega), Content.number_window m' (by omega), ← Nat.add_assoc,
    ← Nat.add_assoc] at hslots
  refine ⟨?_, hvacant⟩
  rw [nodesFrom, hslots, List.filterMap_map, nodesFrom, List.map_filterMap]
  exact List.filterMap_congr fun slot _ => slotNode?_restatSlot ..

/-- New bytes for size and mtime of the record at `x` change this entry of a directory, and only in
these. -/
theorem entries_restat (regular : layout.Arranged IsSize)
    (hcovered : ∀ a ∈ chain, a ∈ layout.covered)
    (hmem : node ∈ entries layout m chain) {x : Nat} (hx : node.recordAddress = some x)
    (h : ∀ y, y < x + Record.sizeOffset ∨ x + Record.nameSizeOffset ≤ y → m' y = m y) :
    entries layout m' chain = (entries layout m chain).map (Node.restat x
        (UInt32.ofNat (m'.number (x + Record.sizeOffset) 4))
        (UInt64.ofNat (m'.number (x + Record.mtimeOffset) 8))) ∧
      ∀ b ∈ chain, vacantIn layout m' b Cursor.firstRecord
        = vacantIn layout m b Cursor.firstRecord := by
  have hheader : Record.headerSize = 18 := rfl
  have hsizeOffset : Record.sizeOffset = 5 := rfl
  have hnameOffset : Record.nameSizeOffset = 17 := rfl
  obtain ⟨a, ha, place, hplace, hge, hend, hpos, hslot, -⟩ := mem_entries hmem
  obtain rfl : a + place = x := Option.some.inj (hplace.symm.trans hx)
  have hblock : ∀ b ∈ chain, nodesFrom layout m' b Cursor.firstRecord
      = (nodesFrom layout m b Cursor.firstRecord).map (Node.restat (a + place)
        (UInt32.ofNat (m'.number (a + place + Record.sizeOffset) 4))
        (UInt64.ofNat (m'.number (a + place + Record.mtimeOffset) 8))) ∧
      vacantIn layout m' b Cursor.firstRecord = vacantIn layout m b Cursor.firstRecord := by
    intro b hb
    by_cases hba : b = a
    · subst hba
      exact nodesFrom_restat hslot fun y _ _ hor => h y hor
    · -- a record of another block is not the one that changes
      have hapart := regular.apart_of_mem (hcovered b hb) (hcovered a ha) hba
      have hsame : ∀ y, b + Cursor.firstRecord ≤ y → layout.InBlock b y → m' y = m y := by
        rintro y - ⟨hle, hlt⟩
        exact h y (by omega)
      obtain ⟨hnodes, hvacant⟩ := nodesFrom_congr hsame
      refine ⟨?_, hvacant⟩
      rw [hnodes]
      symm
      refine (List.map_congr_left fun other hother => ?_).trans (List.map_id _)
      obtain ⟨place', hplace', hge', hend', hpos', -⟩ := mem_nodesFrom hother
      rw [Node.restat, if_neg, id]
      rw [hplace']
      intro heq
      have := Option.some.inj heq
      omega
  refine ⟨?_, fun b hb => (hblock b hb).2⟩
  rw [entries, entries, List.map_flatMap]
  exact List.flatMap_congr fun b hb => (hblock b hb).1

/-! ## A new record -/

/-- A record written into the free rest of a block is one more node. -/
theorem nodesFrom_put {record : Record} {bytes : ByteArray}
    (hrecord : record.Encodable layout.blockSize) (hne : record.address ≠ 0)
    (hbytes : record.encode layout.blockSize = .ok bytes)
    (hzero : ∀ x, a + vacantIn layout m a offset ≤ x → layout.InBlock a x → m x = 0)
    (hend : vacantIn layout m a offset + record.encodedSize ≤ layout.blockSize) :
    nodesFrom layout (m.put (a + vacantIn layout m a offset) bytes) a offset
        = nodesFrom layout m a offset ++ [⟨record, some (a + vacantIn layout m a offset)⟩] ∧
      vacantIn layout (m.put (a + vacantIn layout m a offset) bytes) a offset
        = vacantIn layout m a offset + record.encodedSize := by
  have hsize := Record.size_of_encode hrecord hbytes
  have hge := vacantIn_ge layout m a offset
  generalize hvacant : vacantIn layout m a offset = vacant at *
  rw [vacantIn] at hvacant
  have hblock : ∀ m' : Content, (m'.window a layout.blockSize).size = layout.blockSize := by simp
  -- the block afterwards is what it was, then the record, then zeros
  have hfront : ∀ i, offset ≤ i →
      i < vacantFrom layout.blockSize (m.window a layout.blockSize) offset →
      Bytes.get ((m.put (a + vacant) bytes).window a layout.blockSize) i
        = Bytes.get (m.window a layout.blockSize) i := by
    intro i _ hi
    rw [hvacant] at hi
    rw [get_block, get_block, Content.put_outside m (by omega)]
  have hinside : ∀ i < bytes.size, Bytes.get
      ((m.put (a + vacant) bytes).window a layout.blockSize)
      (vacantFrom layout.blockSize (m.window a layout.blockSize) offset + i)
        = Bytes.get bytes i := by
    intro i hi
    rw [hvacant, get_block, if_pos (by omega), ← Nat.add_assoc, Content.put_add m hi]
  have hbehind : ∀ i, vacantFrom layout.blockSize (m.window a layout.blockSize) offset
      + bytes.size ≤ i →
      Bytes.get ((m.put (a + vacant) bytes).window a layout.blockSize) i = 0 := by
    intro i hi
    rw [hvacant] at hi
    rw [get_block]
    split
    · rw [Content.put_outside m (by omega)]
      exact hzero _ (by omega) ⟨by omega, by omega⟩
    · rfl
  obtain ⟨hslots, hnext⟩ := slots_append hrecord hbytes ((hblock _).trans (hblock _).symm)
    (by rw [hvacant, hblock, hsize]; exact hend) hfront hinside hbehind
  rw [hvacant] at hslots hnext
  refine ⟨?_, hnext⟩
  rw [nodesFrom, hslots, List.filterMap_append, nodesFrom]
  simp [slotNode?, Slot.record?, hne]

/-- A record written into the free rest of the last block is one more entry of the directory. -/
theorem entries_put (regular : layout.Arranged IsSize) (hcovered : ∀ a ∈ chain, a ∈ layout.covered)
    (hnodup : chain.Nodup) {last : Nat} (hlast : chain.getLast? = some last)
    {record : Record} {bytes : ByteArray} (hrecord : record.Encodable layout.blockSize)
    (hne : record.address ≠ 0) (hbytes : record.encode layout.blockSize = .ok bytes)
    (hzero : ∀ x, last + vacantIn layout m last Cursor.firstRecord ≤ x →
      layout.InBlock last x → m x = 0)
    (hend : vacantIn layout m last Cursor.firstRecord + record.encodedSize ≤ layout.blockSize) :
    entries layout (m.put (last + vacantIn layout m last Cursor.firstRecord) bytes) chain
      = entries layout m chain
        ++ [⟨record, some (last + vacantIn layout m last Cursor.firstRecord)⟩] := by
  have hsize := Record.size_of_encode hrecord hbytes
  obtain ⟨front, rfl⟩ := List.getLast?_eq_some_iff.mp hlast
  -- no block but the last one changes
  have hfront : ∀ b ∈ front, b ≠ last := by
    rintro b hb rfl
    exact (List.nodup_append.mp hnodup).2.2 b hb b (by simp) rfl
  obtain ⟨hnodes, -⟩ := nodesFrom_put hrecord hne hbytes hzero hend
  have hsame : entries layout (m.put (last + vacantIn layout m last Cursor.firstRecord) bytes) front
      = entries layout m front := by
    refine entries_congr fun b hb x _ hx => Content.put_outside m ?_
    have hapart := regular.apart_of_mem (hcovered b (by simp [hb])) (hcovered last (by simp))
      (hfront b hb)
    have := hx.1
    have := hx.2
    omega
  rw [entries_append, hsame, entries_cons, hnodes, entries_append, entries_cons]
  simp

end Directory

end ChainFs
