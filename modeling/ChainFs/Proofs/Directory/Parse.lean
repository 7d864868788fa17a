import ChainFs.Proofs.Chain.Payload
import ChainFs.Proofs.Directory.Codec
import ChainFs.Proofs.Directory.Entries

/-!
# A plain reading of directories

Nothing is known here of the blocks of a directory: they may hold any bytes, and their links may run
in circles, lead astray or end nowhere.

* `Directory.parse` — a plain reading of one block. `Directory.parse_eq_slots` is that it finds the
  slots of the block;
* `Directory.route` — the blocks that the links lead to, as far as they lead into the data region.

Walks and blocks are compared with these later on. To be worth comparing with, they have to be
plain: a block is read from front to back in one recursion, and a route is the list of blocks,
without cursors, budgets or failures.
-/

namespace ChainFs

open Store

namespace Directory

variable {layout : Layout} {m : Content} {blockSize offset : Nat} {block : ByteArray}

/-! ## A plain reading of a block -/

/-- The entry in the bytes of a whole record. There is none if the kind has no meaning, the name is
no text or the record has no first block. -/
def recordAt? (blockSize : Nat) (block : ByteArray) (place : Nat) : Option Record := do
  let kind ← Kind.ofCode? (Bytes.get block place)
  let nameStart := place + Record.headerSize
  let name ← String.fromUTF8? (block.extract nameStart (nameStart + Slot.nameSize block place))
  let number := Bytes.number block (place + 1) 4
  if number * blockSize = 0 then none
  else
    some {
      kind
      address := number * blockSize
      size := UInt32.ofNat (Bytes.number block (place + Record.sizeOffset) 4)
      mtime := UInt64.ofNat (Bytes.number block (place + Record.mtimeOffset) 8)
      name }

/-- Reads a block from `offset` on, record by record: the entries with their places, and the place
where it ends, since no header fits there, or no name, or the name has no length. -/
def parse (blockSize : Nat) (block : ByteArray) (offset : Nat) : List (Nat × Record) × Nat :=
  let length := Record.headerSize + Slot.nameSize block offset
  if _fits : offset + Record.headerSize ≤ block.size ∧ 0 < Slot.nameSize block offset ∧
      offset + length ≤ block.size then
    let (records, vacant) := parse blockSize block (offset + length)
    (((recordAt? blockSize block offset).map (offset, ·)).toList ++ records, vacant)
  else ([], offset)
termination_by block.size - offset

/-- The entries that a plain reading of the block at `a` finds behind the link. -/
def parsed (layout : Layout) (m : Content) (a : Nat) : List Node :=
  (parse layout.blockSize (m.window a layout.blockSize) Cursor.firstRecord).1.map
    fun (place, record) => ⟨record, some (a + place)⟩

/-- The place where a plain reading of the block at `a` ends. -/
def parsedEnd (layout : Layout) (m : Content) (a : Nat) : Nat :=
  (parse layout.blockSize (m.window a layout.blockSize) Cursor.firstRecord).2

theorem record?_decode {length : Nat}
    (h : (Slot.decode blockSize block offset).length? = some length) :
    (Slot.decode blockSize block offset).record? = recordAt? blockSize block offset := by
  rw [Slot.length?_decode] at h
  split at h
  · cases h
  · rename_i hfits
    rw [Slot.nameSize] at hfits
    unfold Slot.decode recordAt? Slot.nameSize
    dsimp only
    rw [if_neg hfits]
    cases Kind.ofCode? (Bytes.get block offset) with
    | none => rfl
    | some kind =>
      dsimp only [Option.bind_eq_bind, Option.bind_some]
      cases String.fromUTF8? _ with
      | none => rfl
      | some name => rfl

/-- The plain reading finds the slots of a block. -/
theorem parse_eq_slots (blockSize : Nat) (block : ByteArray) (offset : Nat) :
    parse blockSize block offset
      = ((slots blockSize block offset).filterMap fun slot =>
          slot.2.record?.map fun record => (slot.1, record),
        vacantFrom blockSize block offset) := by
  induction offset using slots_induction blockSize block with
  | vacant offset hlength =>
    obtain ⟨hslots, hvacant⟩ := slots_vacant hlength
    rw [Slot.length?_decode] at hlength
    rw [hslots, hvacant, parse, dif_neg]
    · rfl
    · split at hlength
      · omega
      · cases hlength
  | step offset length hlength ih =>
    obtain ⟨hslots, hvacant⟩ := slots_step hlength
    obtain ⟨rfl, hpos, hend⟩ := Slot.eq_of_length? hlength
    rw [hslots, hvacant, parse, dif_pos ⟨by omega, hpos, hend⟩, ih]
    dsimp only
    rw [← record?_decode hlength]
    cases hrecord : (Slot.decode blockSize block offset).record? with
    | none => rw [List.filterMap_cons_none (by simp [hrecord])]; rfl
    | some record => rw [List.filterMap_cons_some (by simp [hrecord]; rfl)]; rfl

theorem parsed_eq (layout : Layout) (m : Content) (a : Nat) :
    parsed layout m a = nodesFrom layout m a Cursor.firstRecord := by
  rw [parsed, parse_eq_slots, nodesFrom, List.map_filterMap]
  refine List.filterMap_congr fun slot _ => ?_
  rw [slotNode?, Option.map_map]
  rfl

theorem parsedEnd_eq (layout : Layout) (m : Content) (a : Nat) :
    parsedEnd layout m a = vacantIn layout m a Cursor.firstRecord := by
  rw [parsedEnd, parse_eq_slots, vacantIn]

/-! ## The blocks that links lead to -/

/-- The block at `address` and those that its link and the next ones lead to, as far as they lead
into the data region. No more than `count` links are followed. -/
def route (layout : Layout) (m : Content) : (count address : Nat) → List Nat
  | 0, address => [address]
  | count + 1, address =>
    address :: if layout.InData (Chain.target layout m address) then
      route layout m count (Chain.target layout m address) else []

theorem exists_route (layout : Layout) (m : Content) (count address : Nat) :
    ∃ rest, route layout m count address = address :: rest := by
  cases count with
  | zero => exact ⟨[], rfl⟩
  | succ count => exact ⟨_, rfl⟩

/-- Where the last link leads on, as many links were followed as may be. -/
theorem length_route {count address last : Nat}
    (hlast : (route layout m count address).getLast? = some last)
    (hinside : layout.InData (Chain.target layout m last)) :
    (route layout m count address).length = count + 1 := by
  induction count generalizing address with
  | zero => rfl
  | succ count ih =>
    rw [route] at hlast ⊢
    split at hlast
    · rename_i hnext
      obtain ⟨rest, hroute⟩ := exists_route layout m count (Chain.target layout m address)
      rw [hroute, List.getLast?_cons_cons, ← hroute] at hlast
      rw [if_pos hnext, List.length_cons, ih hlast]
    · rename_i hnext
      obtain rfl : address = last := Option.some.inj hlast
      exact absurd hinside hnext

/-- The blocks are those that so many links lead to. -/
theorem exists_iterate_of_mem_route {count address a : Nat}
    (h : a ∈ route layout m count address) : ∃ k, (Chain.target layout m)^[k] address = a := by
  induction count generalizing address with
  | zero => exact ⟨0, (List.mem_singleton.mp h).symm⟩
  | succ count ih =>
    rw [route] at h
    rcases List.mem_cons.mp h with rfl | h
    · exact ⟨0, rfl⟩
    · split at h
      · obtain ⟨k, hk⟩ := ih h
        exact ⟨k + 1, hk⟩
      · cases h

/-- A chain in the data region that is not too long is met as a whole. -/
theorem route_of_linked (hdata : 0 < layout.dataAddress) {a : Nat} {rest : List Nat}
    (h : Chain.Linked layout m (a :: rest)) (hinside : ∀ b ∈ rest, layout.InData b) {count : Nat}
    (hcount : rest.length ≤ count) : route layout m count a = a :: rest := by
  induction rest generalizing a count with
  | nil =>
    have htarget : Chain.target layout m a = 0 := h 0 a rfl
    have hout : ¬ layout.InData (Chain.target layout m a) := by
      rw [htarget]
      exact fun hzero => absurd hzero.1 (by omega)
    cases count with
    | zero => rfl
    | succ count => rw [route, if_neg hout]
  | cons b rest ih =>
    obtain ⟨count, rfl⟩ : ∃ n, count = n + 1 :=
      Nat.exists_eq_add_of_le' (Nat.le_trans (Nat.succ_le_succ (Nat.zero_le _)) hcount)
    have htarget : Chain.target layout m a = b := h 0 a rfl
    rw [route, htarget, if_pos (hinside b (List.mem_cons_self ..)),
      ih h.tail (fun c hc => hinside c (List.mem_cons_of_mem _ hc)) (Nat.le_of_succ_le_succ hcount)]

end Directory

end ChainFs
