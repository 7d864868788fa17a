import ChainFs.Proofs.Chain.Write
import ChainFs.Proofs.Directory.Entries

/-!
# Places for new records

A record is written behind the end of a directory. Of the directory only the chain is known, and
that its last block is zero behind the last record: its blocks may hold records of deleted entries,
of unknown kind and with names that are no text.

* `Directory.updateNode_stamps` — a new size and mtime change the bytes of one record;
* `Directory.OpenEnd` — the end of a directory that is zero from there on;
* `Directory.Place`, `Directory.placeFor_places` — the place that is found for a record, behind the
  end or in a new block;
* `Directory.Place.entries_put`, `Directory.Place.opened_put` — the record is one more entry there,
  and the directory has an end again.

Size and mtime of the directory are rewritten before the place is looked for. The record of the
directory stands in another block than those of its chain, so neither the end of the directory nor
any record in it is touched by this.
-/

namespace ChainFs.Directory

open Store Bitmap Chain Block

variable {layout : Layout} {IsSize : Nat → Prop} [Layout.Roomy IsSize]
variable {m m' m'' : Content} {chain added : List Nat} {node parent : Node}

/-! ## The record of the directory itself -/

/-- The record of a node, if it has one, stands in a block that is in use and not in the chain. -/
def RecordApart (layout : Layout) (m : Content) (chain : List Nat) (node : Node) : Prop :=
  ∀ x, node.recordAddress = some x → ∃ b ∈ marked layout m, b ∉ chain ∧ b ≤ x ∧
    x + Record.headerSize ≤ b + layout.blockSize

/-- Whether a byte is none of those with size and mtime of a node. -/
def Unstamped (node : Node) (x : Nat) : Prop :=
  ∀ y, node.recordAddress = some y → x < y + Record.sizeOffset ∨ y + Record.nameSizeOffset ≤ x

omit [Layout.Roomy IsSize] in
/-- A new size and mtime change the bytes that hold them. -/
theorem updateNode_stamps {σ : Type} [Store σ] [Faithful σ] {size : Nat}
    (regular : layout.Arranged IsSize) (hsize : layout.endAddress ≤ size)
    (apart : RecordApart layout m chain node) (newSize : UInt32) (mtime : UInt64) :
    (updateNode node newSize mtime : Edit σ Unit).Ends size m fun r m' =>
      (r = .ok () ∧ ∀ x, Unstamped node x → m' x = m x) ∨ ∃ e, r = .error e ∧ Fault σ e := by
  rcases hx : node.recordAddress with _ | x
  · rw [updateNode, hx]
    exact .pure (.inl ⟨rfl, fun _ _ => rfl⟩)
  · obtain ⟨b, hb, -, hle, hend⟩ := apart x hx
    have hblock := regular.end_of_mem (marked_subset_covered hb)
    have hoffsets : Record.headerSize = 18 ∧ Record.sizeOffset = 5 ∧ Record.mtimeOffset = 9 ∧
        Record.nameSizeOffset = 17 := ⟨rfl, rfl, rfl, rfl⟩
    rw [updateNode, hx]
    refine .write_bind ?_ (fun e he => .inr ⟨e, rfl, he⟩)
      (.write ?_ (.inl ⟨rfl, fun y hy => ?_⟩) fun e he => .inr ⟨e, rfl, he⟩)
    · rw [Bytes.size_ofNumber]
      omega
    · rw [Bytes.size_ofNumber]
      omega
    · have hout := hy x hx
      rw [Content.put_outside _ (by rw [Bytes.size_ofNumber]; omega),
        Content.put_outside _ (by rw [Bytes.size_ofNumber]; omega)]

/-- They are in a block that is none of the chain. -/
theorem growth_of_stamp (regular : layout.Arranged IsSize)
    (apart : RecordApart layout m chain node) (hsame : ∀ x, Unstamped node x → m' x = m x) :
    ∃ touched, (∀ b ∈ chain, b ∉ touched) ∧ Growth layout m touched [] 0 m' := by
  rcases hx : node.recordAddress with _ | x
  · have hall : m' = m := funext fun y => hsame y fun z hz => by
      rw [hx] at hz
      cases hz
    exact ⟨[], by simp, hall ▸ .refl layout m⟩
  · obtain ⟨b, hb, hnot, hle, hend⟩ := apart x hx
    have hoffsets : Record.headerSize = 18 ∧ Record.sizeOffset = 5 ∧
        Record.nameSizeOffset = 17 := ⟨rfl, rfl, rfl⟩
    refine ⟨[b], fun c hc hcb => hnot (List.mem_singleton.mp hcb ▸ hc),
      .of_same regular (marked_subset_covered hb) fun y hy => hsame y fun z hz => ?_⟩
    obtain rfl := Option.some.inj (hx.symm.trans hz)
    rw [Layout.InBlock] at hy
    omega

/-! ## The end of the directory -/

/-- The chain ends with the block `last`, which is zero from the end of its records on. -/
structure OpenEnd (layout : Layout) (m : Content) (chain : List Nat) (last : Nat) : Prop where
  getLast : chain.getLast? = some last
  zero : ∀ x, last + vacantIn layout m last Cursor.firstRecord ≤ x → layout.InBlock last x →
    m x = 0

omit [Layout.Roomy IsSize] in
/-- Nothing can be seen of a change of other blocks. -/
theorem unchanged_of_same (hsame : ∀ b ∈ chain, ∀ x, layout.InBlock b x → m' x = m x) :
    entries layout m' chain = entries layout m chain ∧
      ∀ last, OpenEnd layout m chain last → OpenEnd layout m' chain last ∧
        vacantIn layout m' last Cursor.firstRecord
          = vacantIn layout m last Cursor.firstRecord := by
  refine ⟨entries_congr fun b hb x _ hx => hsame b hb x hx, fun last hopen => ?_⟩
  have hlast := List.mem_of_getLast? hopen.getLast
  have hvacant : vacantIn layout m' last Cursor.firstRecord
      = vacantIn layout m last Cursor.firstRecord :=
    (nodesFrom_congr fun x _ hx => hsame last hlast x hx).2
  refine ⟨⟨hopen.getLast, fun x hle hx => ?_⟩, hvacant⟩
  rw [hsame last hlast x hx]
  exact hopen.zero x (hvacant ▸ hle) hx

/-- A place for a record of `length` bytes in the block `last`: behind the end `tail` of a chain, or
in a new block that the chain goes on with. -/
structure Place (layout : Layout) (m : Content) (chain : List Nat) (tail : Cursor) (length : Nat)
    (added : List Nat) (last : Nat) (m' : Content) : Prop where
  written : Written layout m chain added [] added.length (payload layout m chain) m'
  opened : OpenEnd layout m' (chain ++ added) last
  chosen : if tail.offset + length ≤ layout.blockSize
    then added = [] ∧ last = tail.block ∧ vacantIn layout m' last Cursor.firstRecord = tail.offset
    else added = [last] ∧ vacantIn layout m' last Cursor.firstRecord = Cursor.firstRecord

namespace Place

variable {length last : Nat} {tail : Cursor}
  (place : Place layout m chain tail length added last m')
include place

omit [Layout.Roomy IsSize] in
/-- The record stays inside the block if it fits into one at all. -/
theorem room (hfits : Cursor.firstRecord + length ≤ layout.blockSize) :
    vacantIn layout m' last Cursor.firstRecord + length ≤ layout.blockSize := by
  have hchosen := place.chosen
  split at hchosen <;> omega

omit [Layout.Roomy IsSize] in
/-- It stays inside the volume if it does so in every block. -/
theorem end_le (regular : layout.Arranged IsSize) {size : Nat} (hsize : layout.endAddress ≤ size)
    (hbound : ∀ b ∈ layout.covered, b + Cursor.firstRecord + length ≤ size) :
    last + vacantIn layout m' last Cursor.firstRecord + length ≤ size := by
  have hcovered := place.written.intact.covered (List.mem_of_getLast? place.opened.getLast)
  have hend := regular.end_of_mem hcovered
  have hnew := hbound last hcovered
  have hchosen := place.chosen
  split at hchosen <;> omega

/-- The directory has the entries that it had. -/
theorem entries_eq (regular : layout.Arranged IsSize) :
    entries layout m' (chain ++ added) = entries layout m chain := by
  have hnone : entries layout m' added = [] := by
    refine List.flatMap_eq_nil_iff.mpr fun a ha => (nodesFrom_zero ?_).1
    exact zero_of_payload regular place.written.payload_eq a ha
  have hsame := same_of_payload place.written.payload_eq
  rw [entries_append, hnone, List.append_nil]
  exact entries_congr hsame

end Place

section Placing

variable {σ : Type} [Store σ] [Faithful σ] {size : Nat}

/-- Finding a place for a record: behind the end of the directory, or in a new block. -/
theorem placeFor_places (regular : layout.Arranged IsSize) (hsize : layout.endAddress ≤ size)
    (intact : Intact layout m chain) {last : Nat} (hopen : OpenEnd layout m chain last)
    {tail : Cursor} (hblock : tail.block = last)
    (hoffset : tail.offset = vacantIn layout m last Cursor.firstRecord) (length : Nat) :
    (placeFor layout tail length : Edit σ Nat).Ends size m fun r m' =>
      (∃ added last', r = .ok (last' + vacantIn layout m' last' Cursor.firstRecord) ∧
        Place layout m chain tail length added last' m') ∨
      (r = .error .outOfSpace ∧ marked layout m = layout.covered ∧
        layout.blockSize < tail.offset + length) ∨
      ∃ e, r = .error e ∧ Fault σ e := by
  subst hblock
  unfold placeFor
  split
  · rename_i hroom
    refine .pure (.inl ⟨[], tail.block, by rw [hoffset], .refl intact, ?_, ?_⟩)
    · rwa [List.append_nil]
    · rw [if_pos hroom]
      exact ⟨rfl, rfl, hoffset.symm⟩
  · rename_i hfull
    refine (Chain.extend_ends regular hsize intact hopen.getLast (· + Cursor.firstRecord)).mono ?_
    rintro r m' (⟨c, rfl, written⟩ | ⟨rfl, hnone, rfl⟩ | ⟨e, spare, counted, rfl, he, -⟩)
    · -- the new block is zero, and its records begin behind its link
      have hzero := zero_of_payload regular written.payload_eq c (by simp)
      have hvacant : vacantIn layout m' c Cursor.firstRecord = Cursor.firstRecord :=
        (nodesFrom_zero hzero).2
      refine .inl ⟨[c], c, by rw [hvacant], written, ⟨List.getLast?_concat, ?_⟩, ?_⟩
      · rw [hvacant]
        exact hzero
      · rw [if_neg hfull]
        exact ⟨rfl, hvacant⟩
    · exact .inr (.inl ⟨rfl, hnone, Nat.lt_of_not_le hfull⟩)
    · exact .inr (.inr ⟨e, rfl, he⟩)

end Placing

namespace Place

variable {last : Nat} {tail : Cursor} {record : Record} {bytes : ByteArray}
variable (place : Place layout m chain tail record.encodedSize added last m')
include place

/-- The record written in its place. -/
theorem written_put (regular : layout.Arranged IsSize)
    (hfits : Cursor.firstRecord + record.encodedSize ≤ layout.blockSize)
    (hsize : bytes.size = record.encodedSize) :
    ∃ p, Written layout m chain added [] added.length p
      (m'.put (last + vacantIn layout m' last Cursor.firstRecord) bytes) := by
  obtain ⟨k, hk⟩ := List.mem_iff_getElem?.mp (List.mem_of_getLast? place.opened.getLast)
  have hge : Layout.linkSize ≤ vacantIn layout m' last Cursor.firstRecord :=
    vacantIn_ge layout m' last Cursor.firstRecord
  have hroom := place.room hfits
  obtain ⟨inBlock, hinBlock⟩ := Nat.exists_eq_add_of_le hge
  have hput := place.written.trans (.of_put regular place.written.intact inBlock bytes hk
    (by rw [Layout.payloadSize]; omega))
  rw [List.append_nil, Nat.add_zero, Nat.add_assoc, ← hinBlock] at hput
  exact ⟨_, hput⟩

omit [Layout.Roomy IsSize] in
/-- The blocks keep the bytes behind their links that are none of the record. -/
theorem same_put (hsize : bytes.size = record.encodedSize) {a x : Nat} (ha : a ∈ chain)
    (hle : a + Layout.linkSize ≤ x) (hx : layout.InBlock a x)
    (hout : x < last + vacantIn layout m' last Cursor.firstRecord ∨
      last + vacantIn layout m' last Cursor.firstRecord + record.encodedSize ≤ x) :
    m'.put (last + vacantIn layout m' last Cursor.firstRecord) bytes x = m x := by
  rw [Content.put_outside m' (hsize ▸ hout)]
  exact same_of_payload place.written.payload_eq a ha x hle hx

/-- A new block is zero but for the record. -/
theorem zero_put (regular : layout.Arranged IsSize) (hsize : bytes.size = record.encodedSize)
    {a x : Nat} (ha : a ∈ added) (hle : a + Layout.linkSize ≤ x) (hx : layout.InBlock a x)
    (hout : x < last + vacantIn layout m' last Cursor.firstRecord ∨
      last + vacantIn layout m' last Cursor.firstRecord + record.encodedSize ≤ x) :
    m'.put (last + vacantIn layout m' last Cursor.firstRecord) bytes x = 0 := by
  rw [Content.put_outside m' (hsize ▸ hout)]
  exact zero_of_payload regular place.written.payload_eq a ha x hle hx

variable (hrecord : record.Encodable layout.blockSize) (hne : record.address ≠ 0)
  (hbytes : record.encode layout.blockSize = .ok bytes)
  (hfits : Cursor.firstRecord + record.encodedSize ≤ layout.blockSize)
include hrecord hne hbytes hfits

/-- The record is one more entry, behind all others. -/
theorem entries_put (regular : layout.Arranged IsSize) :
    entries layout (m'.put (last + vacantIn layout m' last Cursor.firstRecord) bytes)
        (chain ++ added)
      = entries layout m chain
        ++ [⟨record, some (last + vacantIn layout m' last Cursor.firstRecord)⟩] := by
  have intact := place.written.intact
  rw [Directory.entries_put regular (fun _ ha => intact.covered ha) intact.nodup
    place.opened.getLast hrecord hne hbytes place.opened.zero (place.room hfits),
    place.entries_eq regular]

omit [Layout.Roomy IsSize] in
/-- The directory ends behind it, and is zero from there on. -/
theorem opened_put :
    OpenEnd layout (m'.put (last + vacantIn layout m' last Cursor.firstRecord) bytes)
        (chain ++ added) last ∧
      vacantIn layout (m'.put (last + vacantIn layout m' last Cursor.firstRecord) bytes) last
          Cursor.firstRecord
        = vacantIn layout m' last Cursor.firstRecord + record.encodedSize := by
  have hsize := Record.size_of_encode hrecord hbytes
  have hvacant := (nodesFrom_put hrecord hne hbytes place.opened.zero (place.room hfits)).2
  refine ⟨⟨place.opened.getLast, fun x hle hx => ?_⟩, hvacant⟩
  rw [hvacant] at hle
  rw [Content.put_outside m' (by omega)]
  exact place.opened.zero x (by omega) hx

end Place

end ChainFs.Directory
