import ChainFs.Proofs.Directory.Recast

/-!
# A record rewritten in its place

Size and mtime of a record are rewritten where they stand, in the middle of a block whose records
are found one behind the other. Nothing is known here of the bytes of the volume. What is shown is
that no step of any walk depends on the bytes that change, but for what it tells of this one record.

* `Store.Rewritable` — stores that take writes where they can be read;
* `Directory.Restated` — a store in which a record was rewritten, and `Directory.updateRecord_eq`:
  rewriting a record that can be read leaves such a store;
* `Cursor.Stands` — where the record of a node stands that a walk brings, and what two stores show
  alike of the blocks before and after it was rewritten;
* `Cursor.yields_updateRecord` — a walk brings the same after a record was rewritten, except for the
  size and the mtime of this record.

The record is known by its place alone. Other directories may run through the same block, or this
one may come to it twice; whichever walk meets the record, it is the same bytes that it reads, and
so it is the same node that is changed.
-/

namespace ChainFs

/-! ## Stores that are written where they are read -/

namespace Store

/-- A store after some bytes were written where it can be read. -/
structure Rewritten {σ : Type} [Store σ] [Ended σ] (store : σ) (offset : Nat) (bytes : ByteArray)
    (after : σ) : Prop where
  held_eq : held after = (held store).put offset bytes
  reach_eq : reach after = reach store
  /-- Reads that fail go on failing in the same way. -/
  read_past : ∀ {offset length : Nat}, 0 < length → reach store < offset + length →
    Store.read after offset length = Store.read store offset length

/-- A store that takes writes wherever it can be read, if it takes any. -/
class Rewritable (σ : Type) [Store σ] extends Ended σ where
  /-- Whether it takes writes. -/
  Accepts : σ → Prop
  write_within : ∀ {store : σ} {offset : Nat} {bytes : ByteArray}, Accepts store →
    0 < bytes.size → offset + bytes.size ≤ reach store →
    ∃ after, (Store.write offset bytes : Edit σ Unit) store = .ok () after ∧ Accepts after ∧
      Rewritten store offset bytes after

export Rewritable (Accepts write_within)

/-- Bytes in memory are always written. -/
instance : Rewritable Memory where
  Accepts _ := True
  write_within {store offset bytes} _ _ h := by
    obtain ⟨bytes'⟩ := store
    have hfits : offset + bytes.size ≤ bytes'.size := h
    have hsize := Bytes.size_overlay hfits
    refine ⟨⟨Bytes.overlay bytes' offset bytes⟩, if_pos hfits, trivial, ?_, hsize, ?_⟩
    · funext i
      exact Bytes.get_overlay bytes (by omega) i
    · intro start length _ hpast
      have hpast : bytes'.size < start + length := hpast
      have hread : ∀ held : ByteArray, held.size = bytes'.size →
          Store.read (σ := Memory) ⟨held⟩ start length = .error (.io (.pastEnd start length)) :=
        fun held hheld => if_neg (by dsimp only; omega)
      rw [hread _ hsize, hread _ rfl]

/-- A file takes writes unless it was opened for reading. -/
instance : Rewritable File where
  Accepts file := file.writable = true
  write_within {store offset bytes} hwritable hpos h := by
    obtain ⟨content, openedSize, writable, sizeLimit⟩ := store
    obtain rfl : writable = true := hwritable
    have hfits : offset + bytes.size ≤ min content.size (File.positionLimit - 1) := h
    have hlimit : 0 < File.positionLimit := by decide
    have hsize : (content.write offset bytes).size = content.size := by
      change max content.size (offset + bytes.size) = content.size
      omega
    have hwrite : (Store.write offset bytes : Edit File Unit) ⟨content, openedSize, true, sizeLimit⟩
        = .ok () ⟨content.write offset bytes, openedSize, true, sizeLimit⟩ := by
      change File.write offset bytes ⟨content, openedSize, true, sizeLimit⟩ = _
      rw [File.write, if_neg (by decide), if_neg (by omega), if_neg (by omega), if_neg (by omega)]
    refine ⟨_, hwrite, rfl, ?_, ?_, ?_⟩
    · funext i
      exact Bytes.Sparse.get_write content offset bytes i
    · change min (content.write offset bytes).size _ = min content.size _
      rw [hsize]
    · intro start length hlength hpast
      have hpast : min content.size (File.positionLimit - 1) < start + length := hpast
      have hread : ∀ held : Bytes.Sparse, held.size = content.size →
          Store.read (σ := File) ⟨held, openedSize, true, sizeLimit⟩ start length
            = if File.positionLimit ≤ start + length then .error (.io (.system .invalidArgument))
              else .error (.io .shortRead) := by
        intro held hheld
        change File.read _ start length = _
        rw [File.read, if_neg (by omega)]
        split
        · rfl
        · rw [if_neg (by dsimp only; omega)]
      rw [hread _ hsize, hread _ rfl]

end Store

open Store

namespace Directory

variable {σ : Type} [Store σ] {layout : Layout} {store after : σ} {x : Nat} {size : UInt32}
  {mtime : UInt64}

/-! ## The store after a record was rewritten -/

/-- A store in which the record at `x` got another size and mtime. -/
structure Restated [Ended σ] (store : σ) (x : Nat) (size : UInt32) (mtime : UInt64) (after : σ) :
    Prop where
  size_eq : (held after).number (x + Record.sizeOffset) 4 = size.toNat
  mtime_eq : (held after).number (x + Record.mtimeOffset) 8 = mtime.toNat
  /-- Nothing changes in front of the two fields, and nothing behind them. -/
  held_eq : ∀ y, y < x + Record.sizeOffset ∨ x + Record.nameSizeOffset ≤ y →
    held after y = held store y
  reach_eq : reach after = reach store
  read_past : ∀ {offset length : Nat}, 0 < length → reach store < offset + length →
    Store.read after offset length = Store.read store offset length

/-- A record that can be read can be rewritten. -/
theorem updateRecord_eq [Rewritable σ] (haccepts : Accepts store)
    (hreach : x + Record.nameSizeOffset ≤ reach store) (size : UInt32) (mtime : UInt64) :
    ∃ after, (updateRecord x size mtime : Edit σ Unit) store = .ok () after ∧
      Restated store x size mtime after := by
  have hsizeOffset : Record.sizeOffset = 5 := rfl
  have hmtimeOffset : Record.mtimeOffset = 9 := rfl
  have hnameOffset : Record.nameSizeOffset = 17 := rfl
  have hfour : (Bytes.ofNumber 4 size.toNat).size = 4 := Bytes.size_ofNumber ..
  have height : (Bytes.ofNumber 8 mtime.toNat).size = 8 := Bytes.size_ofNumber ..
  have hfirst : x + Record.sizeOffset + (Bytes.ofNumber 4 size.toNat).size ≤ reach store := by
    omega
  obtain ⟨middle, hmiddle, haccepts', sized⟩ := write_within haccepts (by omega) hfirst
  have hsecond : x + Record.mtimeOffset + (Bytes.ofNumber 8 mtime.toNat).size ≤ reach middle := by
    rw [sized.reach_eq]
    omega
  obtain ⟨after, hafter, -, timed⟩ := write_within haccepts' (by omega) hsecond
  refine ⟨after, ?_, ?_, ?_, fun y hy => ?_, ?_, fun hlength hpast => ?_⟩
  · change EStateM.bind _ _ store = _
    rw [EStateM.bind, Store.writeNumber, hmiddle]
    exact hafter
  · rw [timed.held_eq, Content.number_put_outside _ (by omega), sized.held_eq,
      Content.number_put _ _ size.toNat_lt]
  · rw [timed.held_eq, Content.number_put _ _ mtime.toNat_lt]
  · rw [timed.held_eq, Content.put_outside _ (by omega), sized.held_eq,
      Content.put_outside _ (by omega)]
  · rw [timed.reach_eq, sized.reach_eq]
  · rw [timed.read_past hlength (by rw [sized.reach_eq]; exact hpast),
      sized.read_past hlength hpast]

namespace Restated

variable [Ended σ] (restated : Restated store x size mtime after)
include restated

/-- A read that brings neither of the two fields is answered as before, also if it fails. -/
theorem read_eq {offset length : Nat} (hlength : 0 < length)
    (h : offset + length ≤ x + Record.sizeOffset ∨ x + Record.nameSizeOffset ≤ offset) :
    Store.read after offset length = Store.read store offset length := by
  by_cases hreach : offset + length ≤ reach store
  · rw [read_within hlength (restated.reach_eq ▸ hreach), read_within hlength hreach]
    exact congrArg Except.ok (Content.window_congr fun i hi => restated.held_eq _ (by omega))
  · exact restated.read_past hlength (Nat.lt_of_not_le hreach)

theorem readNumber_eq {offset width : Nat} (hwidth : 0 < width)
    (h : offset + width ≤ x + Record.sizeOffset ∨ x + Record.nameSizeOffset ≤ offset) :
    Store.readNumber width after offset = Store.readNumber width store offset := by
  rw [Store.readNumber, restated.read_eq hwidth h, Store.readNumber]

theorem next_eq {a : Nat}
    (h : a + Layout.linkSize ≤ x + Record.sizeOffset ∨ x + Record.nameSizeOffset ≤ a) :
    Chain.next layout after a = Chain.next layout store a := by
  have hlink : Store.readNumber 4 after a = Store.readNumber 4 store a :=
    restated.readNumber_eq (by decide) h
  rw [Chain.next, hlink, Chain.next]

end Restated

/-! ## Records and their places -/

/-- The slots of a block stand one behind the other. -/
theorem pairwise_slots (blockSize : Nat) (block : ByteArray) (offset : Nat) :
    (slots blockSize block offset).Pairwise fun slot slot' => slot.1 < slot'.1 := by
  induction offset using slots_induction blockSize block with
  | vacant offset hlength =>
    rw [(slots_vacant hlength).1]
    exact .nil
  | step offset length hlength ih =>
    have hbounds := Slot.length_bounds hlength
    rw [(slots_step hlength).1]
    refine List.pairwise_cons.mpr ⟨?_, ih⟩
    rintro ⟨place, slot⟩ hmem
    have hge := (bounds_of_mem hmem).1
    dsimp only
    omega

/-- Blocks at the multiples of their size are the same or do not overlap. -/
theorem apart_of_aligned {blockSize a b : Nat} (ha : a % blockSize = 0) (hb : b % blockSize = 0)
    (hne : a ≠ b) : a + blockSize ≤ b ∨ b + blockSize ≤ a := by
  obtain ⟨i, rfl⟩ := Nat.dvd_of_mod_eq_zero ha
  obtain ⟨j, rfl⟩ := Nat.dvd_of_mod_eq_zero hb
  rw [← Nat.mul_succ, ← Nat.mul_succ]
  rcases Nat.lt_trichotomy i j with hlt | rfl | hlt
  · exact .inl (Nat.mul_le_mul_left _ hlt)
  · exact absurd rfl hne
  · exact .inr (Nat.mul_le_mul_left _ hlt)

/-- No two entries in different blocks at such places have their records at the same place. -/
theorem pairwise_entries {m : Content} {blocks : List Nat}
    (haligned : ∀ a ∈ blocks, a % layout.blockSize = 0) (hnodup : blocks.Nodup) :
    (entries layout m blocks).Pairwise fun node node' =>
      node.recordAddress ≠ node'.recordAddress := by
  refine List.pairwise_flatMap.mpr ⟨fun a _ => ?_, ?_⟩
  · refine List.pairwise_filterMap.mpr ((pairwise_slots ..).imp ?_)
    rintro slot slot' hlt node hnode node' hnode' heq
    obtain ⟨record, -, rfl⟩ := Option.map_eq_some_iff.mp hnode
    obtain ⟨record', -, rfl⟩ := Option.map_eq_some_iff.mp hnode'
    have := Option.some.inj heq
    omega
  · refine hnodup.imp_of_mem ?_
    intro a b ha hb hne node hnode node' hnode' heq
    obtain ⟨place, hplace, -, hend, hpos, -⟩ := mem_nodesFrom hnode
    obtain ⟨place', hplace', -, hend', hpos', -⟩ := mem_nodesFrom hnode'
    have hapart := apart_of_aligned (haligned a ha) (haligned b hb) hne
    rw [hplace, hplace'] at heq
    have := Option.some.inj heq
    omega

/-- Links lead to multiples of the block size. -/
theorem mod_of_mem_route {m : Content} {count address a : Nat}
    (haddress : address % layout.blockSize = 0) (h : a ∈ route layout m count address) :
    a % layout.blockSize = 0 := by
  obtain ⟨k, rfl⟩ := exists_iterate_of_mem_route h
  cases k with
  | zero => exact haddress
  | succ k =>
    rw [Function.iterate_succ_apply']
    exact Nat.mul_mod_left ..

end Directory

namespace Cursor

open Directory

variable {σ : Type} [Store σ] {layout : Layout} {store after : σ}

/-! ## Walks after a record was rewritten -/

section Restat

variable [Ended σ] {b place : Nat} {record : Record} {size : UInt32} {mtime : UInt64}

/-- An entry's record, in a block at a multiple of the block size that can be read. -/
structure Stands (layout : Layout) (store : σ) (b place : Nat) (record : Record) : Prop where
  aligned : b % layout.blockSize = 0
  inReach : b + layout.blockSize ≤ reach store
  behind_link : firstRecord ≤ place
  fits : place + record.encodedSize ≤ layout.blockSize
  slot : (place, .record record record.encodedSize)
    ∈ slots layout.blockSize ((held store).window b layout.blockSize) firstRecord

/-- The record of a node that a walk brings stands in a block of the chain. -/
theorem exists_stands {address : Nat} {nodes : List Node} {last : Cursor} {node : Node}
    (haligned : address % layout.blockSize = 0) (hmem : node ∈ nodes)
    (h : (start layout address).yields layout store = (nodes.map .ok, last)) :
    ∃ b ∈ route layout (held store) layout.bitmapBits address, ∃ place,
      node.recordAddress = some (b + place) ∧ Stands layout store b place node.record := by
  obtain ⟨blocks, hfront, hwithin, rfl⟩ := entries_of_walk (List.ne_nil_of_mem hmem) h
  obtain ⟨b, hb, place, hx, hge, hend, -, hslot, -⟩ := mem_entries hmem
  have hroute := hfront.subset hb
  exact ⟨b, hroute, place, hx, mod_of_mem_route haligned hroute, hwithin b hb, hge, hend, hslot⟩

namespace Stands

variable (stands : Stands layout store b place record)
include stands

/-- The block goes on behind the header of the record. -/
theorem header_end : place + Record.headerSize ≤ layout.blockSize := by
  have hfits := stands.fits
  rw [Record.encodedSize] at hfits
  omega

theorem fields_end : b + place + Record.nameSizeOffset ≤ reach store := by
  have hend := stands.header_end
  have hreach := stands.inReach
  have hheader : Record.headerSize = Record.nameSizeOffset + 1 := rfl
  omega

theorem inBlock : layout.InBlock b (b + place) := by
  have hend := stands.header_end
  have hheader : Record.headerSize = 18 := rfl
  exact ⟨Nat.le_add_right b place, by omega⟩

/-- No other block has bytes of this header. -/
theorem apart {a : Nat} (ha : a % layout.blockSize = 0) (hne : a ≠ b) :
    a + layout.blockSize ≤ b + place ∨ b + place + Record.headerSize ≤ a := by
  have hapart := apart_of_aligned ha stands.aligned hne
  have hend := stands.header_end
  omega

/-- The record is no part of a link. -/
theorem link_apart {a : Nat} (ha : a % layout.blockSize = 0) :
    a + Layout.linkSize ≤ b + place ∨ b + place + Record.nameSizeOffset ≤ a := by
  have hend := stands.header_end
  have hge := stands.behind_link
  have hfirst : firstRecord = Layout.linkSize := rfl
  have hheader : Record.headerSize = Record.nameSizeOffset + 1 := rfl
  by_cases hab : a = b
  · omega
  · have hapart := stands.apart ha hab
    omega

variable (restated : Restated store (b + place) size mtime after)
include restated

theorem next_eq {a : Nat} (ha : a % layout.blockSize = 0) :
    Chain.next layout after a = Chain.next layout store a :=
  restated.next_eq (by have := stands.link_apart ha; omega)

/-- A walk finds another block as it was. -/
theorem recast_of_ne {f : Node → Node} {a : Nat} (ha : a % layout.blockSize = 0) (hne : a ≠ b)
    (hf : ∀ node ∈ nodesFrom layout (held store) a firstRecord, f node = node) :
    Recast layout f store after a := by
  have hapart := stands.apart ha hne
  have hheader : Record.headerSize = Record.nameSizeOffset + 1 := rfl
  have hend := stands.header_end
  have hpos : 0 < layout.blockSize := by omega
  by_cases hreach : a + layout.blockSize ≤ reach store
  · have hsame : ∀ y, a + firstRecord ≤ y → layout.InBlock a y → held after y = held store y := by
      rintro y - ⟨hle, hlt⟩
      exact restated.held_eq y (by omega)
    obtain ⟨hnodes, hvacant⟩ := nodesFrom_congr hsame
    refine .readable hreach (restated.reach_eq ▸ hreach) ?_ hvacant (stands.next_eq restated ha)
    rw [hnodes, List.map_congr_left hf, List.map_id']
  · obtain ⟨fault, herror⟩ : ∃ fault, Store.read store a layout.blockSize = .error (.io fault) :=
      read_past hpos (Nat.lt_of_not_le hreach)
    exact .unreadable herror ((restated.read_past hpos (Nat.lt_of_not_le hreach)).trans herror)

/-- In the block of the record it finds this record with the new size and mtime. -/
theorem recast_self : Recast layout (Node.restat (b + place) size mtime) store after b := by
  obtain ⟨hnodes, hvacant⟩ := nodesFrom_restat stands.slot fun y _ _ hy => restated.held_eq y hy
  rw [restated.size_eq, restated.mtime_eq, UInt32.ofNat_toNat, UInt64.ofNat_toNat] at hnodes
  exact .readable stands.inReach (restated.reach_eq ▸ stands.inReach) hnodes hvacant
    (stands.next_eq restated stands.aligned)

/-- So it does in all blocks of a chain. -/
theorem recast_of_aligned {a : Nat} (ha : a % layout.blockSize = 0) :
    Recast layout (Node.restat (b + place) size mtime) store after a := by
  by_cases hab : a = b
  · exact hab ▸ stands.recast_self restated
  · refine stands.recast_of_ne restated ha hab fun node hnode => Node.restat_of_ne fun heq => ?_
    -- a record of another block stands elsewhere
    obtain ⟨place', hx, -, hend, hpos, -⟩ := mem_nodesFrom hnode
    have hsum := Option.some.inj (hx.symm.trans heq)
    have hapart := stands.apart ha hab
    have hheader : Record.headerSize = 18 := rfl
    omega

end Stands

omit [Store σ] [Ended σ] in
/-- Where no two nodes have their records at the same place, a record rewritten is that of one node
only. -/
theorem map_restat {front rest : List Node} {node : Node} {x : Nat}
    (hpairwise : (front ++ node :: rest).Pairwise fun node node' =>
      node.recordAddress ≠ node'.recordAddress)
    (hx : node.recordAddress = some x) :
    (front ++ node :: rest).map (Node.restat x size mtime)
      = front ++ { node with record := { node.record with size, mtime } } :: rest := by
  obtain ⟨-, hrest, hfront⟩ := List.pairwise_append.mp hpairwise
  have hsame : ∀ other : Node, other.recordAddress ≠ node.recordAddress →
      other.restat x size mtime = other :=
    fun other hne => Node.restat_of_ne (hx ▸ hne)
  rw [List.map_append, List.map_cons, Node.restat_of_eq hx,
    List.map_congr_left fun other hother => hsame other
      (hfront other hother node List.mem_cons_self),
    List.map_congr_left fun other hother => hsame other
      ((List.pairwise_cons.mp hrest).1 other hother).symm, List.map_id', List.map_id']

end Restat

/-- **A record rewritten in its place.** On a store of any bytes, take a directory whose chain has
different blocks, each at a multiple of the block size, and whose walk ends without a failure. Any
node that the walk brings has a record, which can be rewritten. The walk brings the same nodes at
the same places then, except that this one has the new size and mtime, and ends where it ended, with
as many bytes of records. A walk through a directory to which the record's block does not belong
brings what it brought, and no link changes. -/
theorem yields_updateRecord [Rewritable σ] (haccepts : Accepts store) {address : Nat}
    (haligned : address % layout.blockSize = 0)
    (hnodup : (route layout (held store) layout.bitmapBits address).Nodup)
    {front rest : List Node} {node : Node} {last : Cursor}
    (hwalk : (start layout address).yields layout store
      = ((front ++ node :: rest).map .ok, last)) (size : UInt32) (mtime : UInt64) :
    ∃ x, node.recordAddress = some x ∧
    ∃ block ∈ route layout (held store) layout.bitmapBits address, layout.InBlock block x ∧
    ∃ after, (updateRecord x size mtime : Edit σ Unit) store = .ok () after ∧
      (start layout address).yields layout after
        = ((front ++ { node with record := { node.record with size, mtime } } :: rest).map .ok,
          last) ∧
      (∀ other, other % layout.blockSize = 0 →
        block ∉ route layout (held store) layout.bitmapBits other →
        (start layout other).yields layout after = (start layout other).yields layout store) ∧
      ∀ a, a % layout.blockSize = 0 →
        Store.readNumber 4 after a = Store.readNumber 4 store a := by
  have hmem : node ∈ front ++ node :: rest := List.mem_append_right front List.mem_cons_self
  have hpos := pos_of_yields (List.ne_nil_of_mem hmem) hwalk
  obtain ⟨block, hblock, place, hx, stands⟩ := exists_stands haligned hmem hwalk
  obtain ⟨after, hafter, restated⟩ := updateRecord_eq haccepts stands.fields_end size mtime
  refine ⟨block + place, hx, block, hblock, stands.inBlock, after, hafter, ?walk, ?others, ?links⟩
  case walk =>
    have hrecast : (start layout address).yields layout after
        = recast _ ((start layout address).yields layout store) :=
      yields_recast hpos (fun other => by simp [Record.encodedSize])
        (fun a ha => stands.recast_of_aligned restated (mod_of_mem_route haligned ha)) 0
    obtain ⟨blocks, hfront, -, hentries⟩ := entries_of_walk (List.ne_nil_of_mem hmem) hwalk
    have hpairwise := pairwise_entries (m := held store)
      (fun a ha => mod_of_mem_route haligned (hfront.subset ha)) (hnodup.sublist hfront.sublist)
    rw [← hentries] at hpairwise
    rw [hrecast, hwalk, recast_ok, map_restat hpairwise hx]
  case others =>
    intro other hother hout
    have hrecast : (start layout other).yields layout after
        = recast id ((start layout other).yields layout store) :=
      yields_recast hpos (fun _ => rfl) (fun a ha => stands.recast_of_ne restated
        (mod_of_mem_route hother ha) (fun hab => hout (hab ▸ ha)) fun _ _ => rfl) 0
    rw [hrecast, recast_id]
  case links =>
    intro a ha
    have hapart : a + 4 ≤ block + place ∨ block + place + Record.nameSizeOffset ≤ a :=
      stands.link_apart ha
    exact restated.readNumber_eq (by decide) (by omega)

/-! ### A directory of two blocks -/

/-- Two blocks of 32 bytes. The first one has a record of an unknown kind and leads to the second
one, which has the entry of a file. -/
def twoBlocks : ByteArray :=
  ⟨#[0, 0, 0x10, 0x04, 7, 0, 0, 0, 0, 0, 0, 0, 0, 0, 0, 0, 0, 0, 0, 0, 0, 1, 0x61,
    0, 0, 0, 0, 0, 0, 0, 0, 0,
    0, 0, 0, 0, 1, 0, 0, 0x10, 0x05, 0, 0, 0, 2, 0, 0, 0, 0, 0, 0, 0, 3, 1, 0x61]⟩

/-- A volume that is zero but for these blocks, which are the first ones. -/
def twoBlockVolume : Memory :=
  ⟨Bytes.overlay (Bytes.zeros 139360) 131168 twoBlocks⟩

/-- What the volume holds. -/
def twoBlockContent : Content :=
  Content.put (fun _ => 0) 131168 twoBlocks

theorem held_twoBlockVolume :
    held twoBlockVolume = twoBlockContent ∧ reach twoBlockVolume = 139360 :=
  ⟨Content.get_overlay_zeros _ (by decide), Bytes.size_overlay_zeros (by decide)⟩

/-- A block with one slot. -/
theorem slots_single {blockSize offset length : Nat} {block : ByteArray} {slot : Slot}
    (hslot : Slot.decode blockSize block offset = slot) (hlength : slot.length? = some length)
    (hend : (Slot.decode blockSize block (offset + length)).length? = none) :
    slots blockSize block offset = [(offset, slot)] ∧
      vacantFrom blockSize block offset = offset + length := by
  obtain ⟨hslots, hvacant⟩ := slots_step (hslot ▸ hlength)
  obtain ⟨hnone, hplace⟩ := slots_vacant hend
  rw [hslots, hvacant, hnone, hplace, hslot]
  exact ⟨rfl, rfl⟩

/-- The first block has no entry and leads to the second one. -/
theorem first_twoBlocks :
    nodesFrom small (held twoBlockVolume) 131168 firstRecord = [] ∧
      vacantIn small (held twoBlockVolume) 131168 firstRecord = 23 ∧
      Chain.target small (held twoBlockVolume) 131168 = 131200 := by
  rw [held_twoBlockVolume.1]
  have hslot : Slot.decode 32 (twoBlockContent.window 131168 32) 4 = .unknownKind 7 19 := by
    decide +kernel
  obtain ⟨hslots, hvacant⟩ := slots_single hslot rfl (by decide +kernel)
  refine ⟨?_, hvacant, by decide +kernel⟩
  change (slots 32 (twoBlockContent.window 131168 32) 4).filterMap (slotNode? 131168) = []
  rw [hslots]
  rfl

/-- The second one has one entry and ends the chain. -/
theorem second_twoBlocks :
    nodesFrom small (held twoBlockVolume) 131200 firstRecord
        = [⟨⟨.file, 131232, 2, 3, "a"⟩, some 131204⟩] ∧
      vacantIn small (held twoBlockVolume) 131200 firstRecord = 23 ∧
      Chain.target small (held twoBlockVolume) 131200 = 0 := by
  rw [held_twoBlockVolume.1]
  have hslot : Slot.decode 32 (twoBlockContent.window 131200 32) 4
      = .record ⟨.file, 131232, 2, 3, "a"⟩ 19 := by
    decide +kernel
  obtain ⟨hslots, hvacant⟩ := slots_single hslot rfl (by decide +kernel)
  refine ⟨?_, hvacant, by decide +kernel⟩
  change (slots 32 (twoBlockContent.window 131200 32) 4).filterMap (slotNode? 131200) = _
  rw [hslots]
  rfl

theorem route_twoBlocks :
    route small (held twoBlockVolume) small.bitmapBits 131168 = [131168, 131200] := by
  have hlinked : Chain.Linked small (held twoBlockVolume) [131168, 131200] := by
    intro k a ha
    rcases k with _ | _ | k
    · obtain rfl := Option.some.inj ha
      exact first_twoBlocks.2.2
    · obtain rfl := Option.some.inj ha
      exact second_twoBlocks.2.2
    · cases ha
  exact route_of_linked (by decide) hlinked (by decide) (by decide)

theorem yields_twoBlocks : (start small 131168).yields small twoBlockVolume
    = ([⟨⟨.file, 131232, 2, 3, "a"⟩, some 131204⟩].map .ok, ⟨131200, 23, 19, 255, true⟩) := by
  obtain ⟨hnodes, hvacant, htarget⟩ := first_twoBlocks
  obtain ⟨hnodes', hvacant', htarget'⟩ := second_twoBlocks
  have hreach : ∀ a, a + 32 ≤ 139360 → a + small.blockSize ≤ reach twoBlockVolume := by
    intro a ha
    rw [held_twoBlockVolume.2]
    exact ha
  have hread := hreach 131168 (by decide)
  have hread' := hreach 131200 (by decide)
  have hnext : Chain.next small twoBlockVolume 131168 = .ok 131200 :=
    next_of_target (Nat.le_trans (by decide) hread) htarget (.inr (by decide))
  have hnext' : Chain.next small twoBlockVolume 131200 = .ok 0 :=
    next_of_target (Nat.le_trans (by decide) hread') htarget' (.inl rfl)
  obtain ⟨rest, last, honward, hyields⟩ := yields_turn (by decide) hread 0 256
  obtain ⟨rest', last', honward', hyields'⟩ := yields_turn (by decide) hread' 0 255
  rw [hnodes, hvacant, onward_link hnext (by decide)] at honward
  rw [hnodes', hvacant', onward_end hnext'] at honward'
  have hnone : 0 + extent [] = 0 := rfl
  rw [hnone, hyields', hnodes'] at honward
  obtain ⟨rfl, rfl⟩ := Prod.mk.inj honward'
  obtain ⟨rfl, rfl⟩ := Prod.mk.inj honward
  change yields small twoBlockVolume ⟨131168, firstRecord, 0, 256, false⟩ = _
  rw [hyields, hnodes]
  rfl

/-- The entry gets another size and mtime. The block behind these two is read as it was before. -/
theorem yields_updateRecord_twoBlocks :
    ∃ after, (updateRecord 131204 7 8 : Edit Memory Unit) twoBlockVolume = .ok () after ∧
      (start small 131168).yields small after
        = ([⟨⟨.file, 131232, 7, 8, "a"⟩, some 131204⟩].map .ok, ⟨131200, 23, 19, 255, true⟩) ∧
      (start small 131232).yields small after = (start small 131232).yields small twoBlockVolume ∧
      Store.readNumber 4 after 131168 = Store.readNumber 4 twoBlockVolume 131168 := by
  have hnodup : (route small (held twoBlockVolume) small.bitmapBits 131168).Nodup := by
    rw [route_twoBlocks]
    decide
  have hwalk : (start small 131168).yields small twoBlockVolume
      = (([] ++ (⟨⟨.file, 131232, 2, 3, "a"⟩, some 131204⟩ : Node) :: []).map .ok,
        ⟨131200, 23, 19, 255, true⟩) := yields_twoBlocks
  have hother : route small (held twoBlockVolume) small.bitmapBits 131232 = [131232] := by
    have hlinked : Chain.Linked small (held twoBlockVolume) [131232] := by
      intro k a ha
      rcases k with _ | k
      · obtain rfl := Option.some.inj ha
        rw [held_twoBlockVolume.1]
        decide +kernel
      · cases ha
    exact route_of_linked (by decide) hlinked (by simp) (by decide)
  have haccepts : Accepts twoBlockVolume := trivial
  obtain ⟨x, hx, block, hblock, -, after, hafter, hyields, hothers, hlinks⟩ :=
    yields_updateRecord haccepts (by decide) hnodup hwalk 7 8
  obtain rfl : 131204 = x := Option.some.inj hx
  refine ⟨after, hafter, hyields, hothers 131232 (by decide) fun hmem => ?_, hlinks 131168 (by decide)⟩
  rw [hother, List.mem_singleton] at hmem
  rw [route_twoBlocks, hmem] at hblock
  exact absurd hblock (by decide)

end Cursor

end ChainFs
