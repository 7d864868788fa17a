import ChainFs.Proofs.Chain.Overlay
import ChainFs.Proofs.Directory.Place
import ChainFs.Proofs.Directory.Yields
import ChainFs.Proofs.Path

/-!
# Appending to directories of any records

A new entry is appended to a directory whatever records it holds. Those that stand for no entry are
passed over and stay as they are.

Creating an entry is four changes one after the other: size and mtime of the directory, the bit and
the bytes of the first block, maybe a new block for the chain of the directory, and the record. They
are kept apart as `Prepared` and `Entered`, so that it is a matter of the last step alone whether
the record fits.

* `Directory.Prepared`, `Directory.Entered` — the steps of a new entry, up to the record;
* `Directory.Appended` — what a new entry has changed;
* `Directory.Ready` — what a new entry needs, and leaves for the next one;
* `Directory.create_appends` — a new entry is the last one, and the directory may get another one.

The record has to fit into a block of its own. In smaller blocks it runs over the end of its block
and is not found again: `Directory.create_overruns`, `Directory.create_cramped`.
-/

namespace ChainFs.Directory

open Store Bitmap Chain Block

variable {layout : Layout} {IsSize : Nat → Prop} [Layout.Roomy IsSize]
variable {m m' m'' : Content} {chain added : List Nat} {parent : Node}

/-! ## A new entry -/

omit [Layout.Roomy IsSize] in
/-- The blocks that were free before are those that were taken and those that are free now. -/
theorem freeBlocks_of_growth (regular : layout.Arranged IsSize) {touched taken : List Nat}
    {counted : Nat} (growth : Growth layout m touched taken counted m') :
    freeBlocks layout m = freeBlocks layout m' + taken.length := by
  have hcard := growth.card_marked
  have hle := card_marked_le (m := m') regular
  rw [freeBlocks, freeBlocks, population_eq regular, population_eq regular]
  omega

omit [Layout.Roomy IsSize] in
/-- No block is free where all are in use. -/
theorem freeBlocks_full (regular : layout.Arranged IsSize)
    (hfull : marked layout m = layout.covered) : freeBlocks layout m = 0 := by
  rw [freeBlocks, population_eq regular, hfull, regular.card_covered, Nat.sub_self]

/-- A volume that is ready for a new record in a directory: size and mtime of the directory may be
new, and the first block of the entry is taken. -/
structure Prepared (layout : Layout) (m : Content) (chain : List Nat) (parent : Node)
    (address : Nat) (m' : Content) : Prop where
  growth : ∃ touched, (∀ b ∈ chain, b ∉ touched) ∧ Growth layout m touched [address] 1 m'
  zero : ∀ x, layout.InBlock address x → m' x = 0
  same : ∀ x, Elsewhere layout [address] x → Unstamped parent x → m' x = m x

namespace Prepared

variable {address : Nat}

theorem of_acquire (regular : layout.Arranged IsSize) (apart : RecordApart layout m chain parent)
    (hstamped : ∀ x, Unstamped parent x → m' x = m x) (growth : Growth layout m' [] [address] 1 m'')
    (hzero : ∀ x, layout.InBlock address x → m'' x = 0) :
    Prepared layout m chain parent address m'' := by
  obtain ⟨touched, hapart, hstamp⟩ := growth_of_stamp regular apart hstamped
  have htaken := hstamp.trans growth (by simp)
  rw [List.nil_append, Nat.zero_add] at htaken
  refine ⟨⟨touched, hapart, htaken⟩, hzero, fun x hx hout => ?_⟩
  rw [growth.same x hx, hstamped x hout]

variable (prepared : Prepared layout m chain parent address m')
include prepared

/-- The blocks of the directory are as they were. -/
theorem same_chain (regular : layout.Arranged IsSize) (intact : Intact layout m chain) :
    ∀ b ∈ chain, ∀ x, layout.InBlock b x → m' x = m x := by
  obtain ⟨touched, hapart, growth⟩ := prepared.growth
  exact fun b hb x hx => growth.same_of_marked regular (intact.marked b hb) (hapart b hb) hx

theorem intact (regular : layout.Arranged IsSize) (intact : Intact layout m chain) :
    Intact layout m' chain := by
  obtain ⟨touched, hapart, growth⟩ := prepared.growth
  exact intact.of_growth regular growth hapart

omit [Layout.Roomy IsSize] in
theorem address_covered : address ∈ layout.covered := by
  obtain ⟨touched, -, growth⟩ := prepared.growth
  exact growth.taken_covered address (by simp)

omit [Layout.Roomy IsSize] in
/-- The block of the entry is none of the directory. -/
theorem address_not_mem (intact : Intact layout m chain) : address ∉ chain := by
  obtain ⟨touched, -, growth⟩ := prepared.growth
  exact fun hmem => growth.fresh address (by simp) (intact.marked address hmem)

/-- It stays zero while the directory is written to. -/
theorem zero_of_growth (regular : layout.Arranged IsSize) (intact : Intact layout m chain)
    {counted : Nat} (hwrite : Growth layout m' chain added counted m'') :
    ∀ x, layout.InBlock address x → m'' x = 0 := by
  obtain ⟨touched, -, growth⟩ := prepared.growth
  intro x hx
  rw [hwrite.same_of_marked regular (growth.taken_marked (by simp))
    (prepared.address_not_mem intact) hx]
  exact prepared.zero x hx

omit [Layout.Roomy IsSize] in
/-- All that was taken from the first step on until the directory was written to. -/
theorem growth_trans (intact : Intact layout m chain) {counted : Nat}
    (hwrite : Growth layout m' chain added counted m'') :
    ∃ touched, Growth layout m touched (address :: added) (1 + counted) m'' := by
  obtain ⟨touched, -, growth⟩ := prepared.growth
  have hcovered : ∀ a ∈ touched ++ chain, a ∈ layout.covered := fun a ha =>
    (List.mem_append.mp ha).elim (growth.touched_covered a) fun ha => intact.covered ha
  exact ⟨touched ++ chain, (growth.mono hcovered fun a ha => List.mem_append_left _ ha).trans hwrite
    fun a ha => List.mem_append_left _ (List.mem_append_right _ ha)⟩

omit [Layout.Roomy IsSize] in
/-- Every other byte stays but for size and mtime of the directory. -/
theorem same_of_growth {counted : Nat} (hwrite : Growth layout m' chain added counted m'') :
    ∀ x, Elsewhere layout (chain ++ address :: added) x → Unstamped parent x → m'' x = m x := by
  intro x hx hout
  have hother : Elsewhere layout (chain ++ added) x := hx.mono fun a ha => by
    rcases List.mem_append.mp ha with ha | ha
    · exact List.mem_append_left _ ha
    · exact List.mem_append_right _ (List.mem_cons_of_mem _ ha)
  rw [hwrite.same x hother, prepared.same x (hx.mono (by simp)) hout]

omit [Layout.Roomy IsSize] in
/-- The blocks that were free are this one and those that are free now. -/
theorem freeBlocks_eq (regular : layout.Arranged IsSize) :
    freeBlocks layout m = freeBlocks layout m' + 1 := by
  obtain ⟨touched, -, growth⟩ := prepared.growth
  exact freeBlocks_of_growth regular growth

end Prepared

/-- What a new entry has changed. A free block is its first block, its record stands at `place`
behind the end `tail` of its directory, and the directory goes on with the blocks `added`. -/
structure Appended (layout : Layout) (m : Content) (chain : List Nat) (tail : Cursor)
    (parent : Node) (record : Record) (place : Nat) (added : List Nat) (m' : Content) : Prop where
  intact : Intact layout m' (chain ++ added)
  entries_eq : entries layout m' (chain ++ added)
    = entries layout m chain ++ [⟨record, some place⟩]
  place_eq : if tail.offset + record.encodedSize ≤ layout.blockSize
    then added = [] ∧ place = tail.block + tail.offset
    else ∃ last, added = [last] ∧ place = last + Cursor.firstRecord
  /-- The directory is zero behind the record, which is the last one. -/
  opened : ∃ last, OpenEnd layout m' (chain ++ added) last ∧
    last + vacantIn layout m' last Cursor.firstRecord = place + record.encodedSize
  nodup : (record.address :: added).Nodup
  fresh : ∀ a ∈ record.address :: added, a ∉ marked layout m
  marked_eq : marked layout m' = marked layout m ∪ (record.address :: added).toFinset
  counter_eq : counter layout m' = min (counter layout m + (1 + added.length)) counterLimit
  /-- The first block of the entry. -/
  zero : ∀ x, layout.InBlock record.address x → m' x = 0
  /-- The blocks that the directory had, behind their links. -/
  kept : ∀ a ∈ chain, ∀ x, a + Layout.linkSize ≤ x → layout.InBlock a x →
    x < place ∨ place + record.encodedSize ≤ x → m' x = m x
  /-- A new block of the directory, behind its link. -/
  cleared : ∀ a ∈ added, ∀ x, a + Layout.linkSize ≤ x → layout.InBlock a x →
    x < place ∨ place + record.encodedSize ≤ x → m' x = 0
  /-- Everything else, but for size and mtime of the directory. -/
  same : ∀ x, Elsewhere layout (chain ++ record.address :: added) x → Unstamped parent x →
    m' x = m x

/-- A record written where a place was found for it, whether it fits there or not. -/
structure Entered (layout : Layout) (m : Content) (chain : List Nat) (tail : Cursor)
    (parent : Node) (record : Record) (place : Nat) (m' : Content) : Prop where
  encodable : record.Encodable layout.blockSize
  steps : ∃ added last m₂ m₃ bytes, Prepared layout m chain parent record.address m₂ ∧
    Place layout m₂ chain tail record.encodedSize added last m₃ ∧
    place = last + vacantIn layout m₃ last Cursor.firstRecord ∧
    record.encode layout.blockSize = .ok bytes ∧ m' = m₃.put place bytes

/-- A record that fits into a block is a new entry. -/
theorem Entered.appended {tail : Cursor} {record : Record} {place : Nat}
    (regular : layout.Arranged IsSize) (intact : Intact layout m chain)
    (entered : Entered layout m chain tail parent record place m')
    (hfits : Cursor.firstRecord + record.encodedSize ≤ layout.blockSize) :
    ∃ added, Appended layout m chain tail parent record place added m' := by
  obtain ⟨hrecord, added, last, m₂, m₃, bytes, prepared, found, rfl, hbytes, rfl⟩ := entered
  have hsize := Record.size_of_encode hrecord hbytes
  have hne := Nat.ne_of_gt (regular.pos_of_mem prepared.address_covered)
  have hsame := prepared.same_chain regular intact
  obtain ⟨p, written⟩ := found.written_put regular hfits hsize
  have hwrite := written.growth
  rw [List.append_nil] at hwrite
  obtain ⟨touched, growth⟩ := prepared.growth_trans intact hwrite
  obtain ⟨hopen, hvacant⟩ := found.opened_put hrecord hne hbytes hfits
  have hchosen := found.chosen
  refine ⟨added, written.intact, ?_, ?_, ⟨last, hopen, by rw [hvacant, Nat.add_assoc]⟩,
    growth.nodup, growth.fresh, growth.marked_eq, growth.counter_eq,
    prepared.zero_of_growth regular intact hwrite, fun a ha x hle hx hout => ?_,
    fun a ha x hle hx hout => found.zero_put regular hsize ha hle hx hout,
    prepared.same_of_growth hwrite⟩
  · rw [found.entries_put hrecord hne hbytes hfits regular, (unchanged_of_same hsame).1]
  · split at hchosen
    · obtain ⟨hadded, rfl, hoffset⟩ := hchosen
      rw [if_pos ‹_›]
      exact ⟨hadded, by rw [hoffset]⟩
    · rw [if_neg ‹_›]
      exact ⟨last, hchosen.1, by rw [hchosen.2]⟩
  · rw [found.same_put hsize ha hle hx hout, hsame a ha x hx]

/-- How many blocks a new entry takes: one for itself, and one for a record that the last block of
its directory has no room for. -/
def newBlocks (layout : Layout) (tail : Cursor) (length : Nat) : Nat :=
  if tail.offset + length ≤ layout.blockSize then 1 else 2

section Creating

variable {σ : Type} [Store σ] [Faithful σ] {size last : Nat} {name : String}
variable (regular : layout.Arranged IsSize) (hsize : layout.endAddress ≤ size)
  (intact : Intact layout m chain) (apart : RecordApart layout m chain parent)
  (hopen : OpenEnd layout m chain last) (hvalid : validateName name = .ok ())
  (hbound : ∀ b ∈ layout.covered,
    b + Cursor.firstRecord + (Record.headerSize + name.utf8ByteSize) ≤ size)
include regular hsize intact apart hopen hvalid hbound

/-- A record appended to a directory whose own record has been rewritten. -/
theorem append_ends (hstamped : ∀ x, Unstamped parent x → m' x = m x) (kind : Kind)
    (mtime : UInt64) :
    (append layout (tail layout m chain last) name kind mtime : Edit σ Node).Ends size m'
      fun r after =>
      (∃ address place, r = .ok ⟨⟨kind, address, 0, mtime, name⟩, some place⟩ ∧
        Entered layout m chain (tail layout m chain last) parent ⟨kind, address, 0, mtime, name⟩
          place after) ∨
      (r = .error .outOfSpace ∧ freeBlocks layout m < newBlocks layout (tail layout m chain last)
        (Record.headerSize + name.utf8ByteSize)) ∨
      ∃ e, r = .error e ∧ Fault σ e := by
  obtain ⟨touched, hapart, hstamp⟩ := growth_of_stamp regular apart hstamped
  refine .bind (Block.acquire_ends regular hsize) ?_ ?_
  · rintro e m₂ (⟨a, hr, -⟩ | ⟨hr, hfull, rfl⟩ | ⟨e', spare, hr, he, -⟩)
    · cases hr
    · -- not even the first block was free
      cases hr
      refine .inr (.inl ⟨rfl, ?_⟩)
      rw [freeBlocks_of_growth regular hstamp, freeBlocks_full regular hfull, newBlocks]
      split <;> decide
    · cases hr
      exact .inr (.inr ⟨e, rfl, he⟩)
  rintro address m₂ (⟨a, hr, growth, -, hzero⟩ | ⟨hr, -⟩ | ⟨e', spare, hr, -⟩)
  · obtain rfl := Except.ok.inj hr
    have prepared := Prepared.of_acquire regular apart hstamped growth hzero
    have hrecord : Record.Encodable layout.blockSize ⟨kind, address, 0, mtime, name⟩ :=
      encodable_of_valid regular hvalid prepared.address_covered
    have hbytes := Record.encode_eq hrecord
    have hlength := Record.size_of_encode hrecord hbytes
    obtain ⟨hopen', hvacant⟩ :=
      (unchanged_of_same (prepared.same_chain regular intact)).2 last hopen
    refine .ofExcept_bind hbytes (.bind (placeFor_places regular hsize
      (prepared.intact regular intact) hopen' rfl hvacant.symm _) ?_ ?_)
    · rintro e m₃ (⟨added, last', hr, -⟩ | ⟨hr, hfull, hlt⟩ | ⟨e', hr, he⟩)
      · cases hr
      · -- the first block was the only one
        cases hr
        have htwo : newBlocks layout (tail layout m chain last)
            (Record.headerSize + name.utf8ByteSize) = 2 := if_neg (Nat.not_le_of_lt hlt)
        refine .inr (.inl ⟨rfl, ?_⟩)
        rw [prepared.freeBlocks_eq regular, freeBlocks_full regular hfull, htwo]
        decide
      · cases hr
        exact .inr (.inr ⟨e, rfl, he⟩)
    · rintro x m₃ (⟨added, last', hr, place⟩ | ⟨hr, -⟩ | ⟨e', hr, -⟩)
      · obtain rfl := Except.ok.inj hr
        refine .write_bind ?_ (fun e he => .inr (.inr ⟨e, rfl, he⟩)) (.pure (.inl ⟨address, _, rfl,
          hrecord, added, last', m₂, m₃, _, prepared, place, rfl, hbytes, rfl⟩))
        rw [hlength]
        exact place.end_le regular hsize hbound
      · cases hr
      · cases hr
  · cases hr
  · cases hr

/-- A new entry at the end of a directory that is zero from there on. It ends early if there are too
few free blocks, or at a failing write. -/
theorem create_ends (hfirst : chain[0]? = some parent.record.address) (hkind : parent.isDirectory)
    (hnew : ∀ node ∈ entries layout m chain, node.record.name ≠ name)
    (hlive : extent (entries layout m chain) + (Record.headerSize + name.utf8ByteSize) < 2 ^ 32)
    (kind : Kind) (mtime : UInt64) :
    (create layout parent name kind mtime : Edit σ Node).Ends size m fun r after =>
      (∃ address place, r = .ok ⟨⟨kind, address, 0, mtime, name⟩, some place⟩ ∧
        Entered layout m chain (tail layout m chain last) parent ⟨kind, address, 0, mtime, name⟩
          place after) ∨
      (r = .error .outOfSpace ∧ freeBlocks layout m < newBlocks layout (tail layout m chain last)
        (Record.headerSize + name.utf8ByteSize)) ∨
      ∃ e, r = .error e ∧ Fault σ e := by
  have hcheck : checkNew parent name = .ok () := by
    rw [checkNew, hvalid]
    exact if_pos hkind
  have hnone : (entries layout m chain).find? (·.record.name = name) = none :=
    List.find?_eq_none.mpr fun node hnode => by simpa using hnew node hnode
  have hgrown : grownSize (tail layout m chain last) (Record.headerSize + name.utf8ByteSize)
      = .ok (UInt32.ofNat (extent (entries layout m chain)
        + (Record.headerSize + name.utf8ByteSize))) := if_pos hlive
  refine .ofExcept_bind hcheck (.ask_bind (a := tail layout m chain last) ?_
    (.ofExcept_bind hgrown (.bind (updateNode_stamps regular hsize apart _ mtime) ?_ ?_)))
  · rintro store rfl rfl
    exact tailFor_eq regular hsize intact hfirst hopen.getLast hnone
  · rintro e m' (⟨hr, -⟩ | ⟨e', hr, he⟩)
    · cases hr
    · cases hr
      exact .inr (.inr ⟨e, rfl, he⟩)
  · rintro ⟨⟩ m' (⟨-, hstamped⟩ | ⟨e', hr, -⟩)
    · exact append_ends regular hsize intact apart hopen hvalid hbound hstamped kind mtime
    · cases hr

end Creating

/-! ## One entry after the other -/

/-- A directory that may get another entry. A walk through it has met `before` and ended at `tail`,
and from there on the last block is zero. -/
structure Ready {σ : Type} [Store σ] [Faithful σ] (layout : Layout) (store : σ) (parent : Node)
    (chain : List Nat) (tail : Cursor) (before : Array Node) : Prop where
  isDirectory : parent.isDirectory
  first : chain[0]? = some parent.record.address
  intact : Intact layout (content store) chain
  apart : RecordApart layout (content store) chain parent
  walk : (Cursor.start layout parent.record.address).drain layout store #[] = .ok (tail, before)
  zero : ∀ x, tail.block + tail.offset ≤ x → layout.InBlock tail.block x → content store x = 0

namespace Ready

variable {σ : Type} [Store σ] [Faithful σ] {store : σ} {last : Nat}
variable (regular : layout.Arranged IsSize) (hsize : layout.endAddress ≤ Store.size store)
include regular hsize

/-- Such a walk ends behind the last record. -/
theorem opened {tail : Cursor} {before : Array Node}
    (ready : Ready layout store parent chain tail before) :
    ∃ last, OpenEnd layout (content store) chain last ∧
      tail = Directory.tail layout (content store) chain last ∧
      before = (entries layout (content store) chain).toArray := by
  obtain ⟨last, hlast⟩ := ready.intact.exists_last
  have hdrain := (start_ahead regular ready.intact ready.first hlast).drain_eq regular hsize #[]
  obtain ⟨htail, hbefore⟩ := Prod.mk.inj (Except.ok.inj (ready.walk.symm.trans hdrain))
  have hzero := ready.zero
  rw [htail] at hzero
  exact ⟨last, ⟨hlast, hzero⟩, htail, by rw [hbefore, Array.empty_append]⟩

/-- A directory that is zero behind the last record may get another entry. -/
theorem of_open (hkind : parent.isDirectory) (hfirst : chain[0]? = some parent.record.address)
    (intact : Intact layout (content store) chain)
    (apart : RecordApart layout (content store) chain parent)
    (hopen : OpenEnd layout (content store) chain last) :
    Ready layout store parent chain (Directory.tail layout (content store) chain last)
      (entries layout (content store) chain).toArray where
  isDirectory := hkind
  first := hfirst
  intact := intact
  apart := apart
  walk := by
    rw [(start_ahead regular intact hfirst hopen.getLast).drain_eq regular hsize,
      Array.empty_append]
  zero := hopen.zero

end Ready

/-- A new entry leaves its directory ready for the next one. -/
theorem Appended.ready {σ : Type} [Store σ] [Faithful σ] {store after : σ} {tail : Cursor}
    {before : Array Node} {record : Record} {place : Nat} (regular : layout.Arranged IsSize)
    (hsize : layout.endAddress ≤ Store.size after)
    (ready : Ready layout store parent chain tail before)
    (hbefore : before = (entries layout (content store) chain).toArray)
    (appended : Appended layout (content store) chain tail parent record place added
      (content after)) :
    ∃ tail', Ready layout after parent (chain ++ added) tail' (before.push ⟨record, some place⟩) ∧
      tail'.block + tail'.offset = place + record.encodedSize := by
  obtain ⟨last, hopen, hend⟩ := appended.opened
  have hfirst : (chain ++ added)[0]? = some parent.record.address := by
    rw [List.getElem?_append_left (List.length_pos_of_ne_nil ready.intact.ne_nil)]
    exact ready.first
  have apart : RecordApart layout (content after) (chain ++ added) parent := by
    intro x hx
    obtain ⟨b, hb, hnot, hbounds⟩ := ready.apart x hx
    refine ⟨b, appended.marked_eq ▸ Finset.mem_union_left _ hb, ?_, hbounds⟩
    rw [List.mem_append, not_or]
    exact ⟨hnot, fun hadded => appended.fresh b (List.mem_cons_of_mem _ hadded) hb⟩
  have hready := Ready.of_open regular hsize ready.isDirectory hfirst appended.intact apart hopen
  rw [appended.entries_eq, ← List.push_toArray, ← hbefore] at hready
  exact ⟨_, hready, hend⟩

/-- If there are enough free blocks, a record is written where a place is found for it. -/
theorem Ready.create_enters {τ : Type} [Store τ] [Reliable τ] (regular : layout.Arranged IsSize)
    (store : τ) (hsize : layout.endAddress ≤ Store.size store) {tail : Cursor}
    {before : Array Node} (ready : Ready layout store parent chain tail before) {name : String}
    (hvalid : validateName name = .ok ()) (hnew : ∀ node ∈ before, node.record.name ≠ name)
    (hlive : tail.liveSize + (Record.headerSize + name.utf8ByteSize) < 2 ^ 32)
    (hbound : ∀ b ∈ layout.covered,
      b + Cursor.firstRecord + (Record.headerSize + name.utf8ByteSize) ≤ Store.size store)
    (hfree : newBlocks layout tail (Record.headerSize + name.utf8ByteSize)
      ≤ freeBlocks layout (content store))
    (kind : Kind) (mtime : UInt64) :
    ∃ address place after, (create layout parent name kind mtime).outcome store
        = (.ok ⟨⟨kind, address, 0, mtime, name⟩, some place⟩, after) ∧
      Store.size after = Store.size store ∧
      Entered layout (content store) chain tail parent ⟨kind, address, 0, mtime, name⟩ place
        (content after) := by
  obtain ⟨last, hopen, rfl, rfl⟩ := ready.opened regular hsize
  have hends := (create_ends regular hsize ready.intact ready.apart hopen hvalid hbound ready.first
    ready.isDirectory (fun node hnode => hnew node (by simpa using hnode)) hlive kind mtime).outcome
    (rfl : Store.size store = _) rfl
  obtain ⟨hsame, ⟨address, place, hr, entered⟩ | ⟨-, hlt⟩ | ⟨e, -, he⟩⟩ := hends
  · exact ⟨address, place, _, Prod.ext hr rfl, hsame, entered⟩
  · exact absurd hfree (Nat.not_le_of_lt hlt)
  · exact absurd he (Reliable.not_fault e)

/-- **A new entry is appended, and nothing is disturbed.** The directory may hold anything: of its
blocks it is only asked that they are a chain and that the last one is zero from the end of the walk
on. If the record fits into a block and there are enough free blocks, a new walk meets the nodes
that were there, where they were, and then the new one. Its record stands at the end of the last
block, or at the beginning of a new one if there was no room for it. All other bytes of the
directory and of the volume are kept but for size and mtime of the directory, and the next entry
finds the directory as this one did. -/
theorem create_appends {τ : Type} [Store τ] [Reliable τ] {superblock : Superblock}
    {configured : UInt32} (hlayout : Layout.ofSuperblock superblock configured = .ok layout)
    (store : τ) (hsize : layout.endAddress ≤ Store.size store) {tail : Cursor}
    {before : Array Node} (ready : Ready layout store parent chain tail before) {name : String}
    (hvalid : validateName name = .ok ()) (hnew : ∀ node ∈ before, node.record.name ≠ name)
    (hlive : tail.liveSize + (Record.headerSize + name.utf8ByteSize) < 2 ^ 32)
    (hfits : Cursor.firstRecord + (Record.headerSize + name.utf8ByteSize) ≤ layout.blockSize)
    (hfree : newBlocks layout tail (Record.headerSize + name.utf8ByteSize)
      ≤ freeBlocks layout (content store))
    (kind : Kind) (mtime : UInt64) :
    ∃ address place added tail' after, (create layout parent name kind mtime).outcome store
        = (.ok ⟨⟨kind, address, 0, mtime, name⟩, some place⟩, after) ∧
      Store.size after = Store.size store ∧
      Appended layout (content store) chain tail parent ⟨kind, address, 0, mtime, name⟩ place added
        (content after) ∧
      Ready layout after parent (chain ++ added) tail'
        (before.push ⟨⟨kind, address, 0, mtime, name⟩, some place⟩) ∧
      tail'.block + tail'.offset = place + (Record.headerSize + name.utf8ByteSize) := by
  have hpos := Layout.pos_of_ofSuperblock hlayout
  have hexact : layout.Arranged (· = configured.toNat) :=
    Layout.arranged_of_ofSuperblock hpos rfl hlayout
  have hoffsets : Cursor.firstRecord = 4 ∧ Record.headerSize = 18 := ⟨rfl, rfl⟩
  have hlarge : 9 ≤ configured.toNat := by
    rw [← hexact.isSize]
    omega
  have regular : layout.Arranged (9 ≤ ·) := Layout.arranged_of_ofSuperblock hpos hlarge hlayout
  have hbound : ∀ b ∈ layout.covered,
      b + Cursor.firstRecord + (Record.headerSize + name.utf8ByteSize) ≤ Store.size store := by
    intro b hb
    have hend := regular.end_of_mem hb
    omega
  obtain ⟨address, place, after, hr, hsame, entered⟩ :=
    ready.create_enters regular store hsize hvalid hnew hlive hbound hfree kind mtime
  obtain ⟨added, appended⟩ := entered.appended regular ready.intact hfits
  obtain ⟨last, hopen, -, hbefore⟩ := ready.opened regular hsize
  obtain ⟨tail', hready, hend⟩ := appended.ready regular (hsame ▸ hsize) ready hbefore
  exact ⟨address, place, added, tail', after, hr, hsame, appended, hready, hend⟩

/-! ### A directory with a record of an unknown kind -/

/-- A directory block with a record of an unknown kind. -/
def stale : ByteArray :=
  ⟨#[0, 0, 0, 0, 7, 0, 0, 0, 0, 0, 0, 0, 0, 0, 0, 0, 0, 0, 0, 0, 0, 1, 0x61]⟩

/-- A volume with blocks of 32 bytes that is zero but for the first bit of the bitmap and this
block. It is one block longer than its layout needs. -/
def staleVolume : Memory :=
  ⟨Bytes.overlay (Bytes.overlay (Bytes.zeros 139392) 131136 ⟨#[1]⟩) 131168 stale⟩

/-- What the volume holds. -/
def staleContent : Content :=
  (Content.put (fun _ => 0) 131136 ⟨#[1]⟩).put 131168 stale

theorem ofSuperblock_small : Layout.ofSuperblock ⟨32, 4355, 0⟩ 32 = .ok Cursor.small := by
  decide

theorem small_arranged : Cursor.small.Arranged (9 ≤ ·) :=
  Layout.arranged_of_ofSuperblock (by decide) (by decide) ofSuperblock_small

/-- The length of the volume before the block is written. -/
theorem size_markedZeros :
    (Bytes.overlay (Bytes.zeros 139392) 131136 ⟨#[1]⟩).size = 139392 :=
  Bytes.size_overlay_zeros (by decide)

theorem size_staleVolume : Store.size staleVolume = 139392 :=
  (Bytes.size_overlay (by rw [size_markedZeros]; decide)).trans size_markedZeros

theorem content_staleVolume : content staleVolume = staleContent := by
  funext i
  have hget : content staleVolume i = Bytes.get staleVolume.bytes i := rfl
  rw [hget, staleVolume, Bytes.get_overlay _ (by rw [size_markedZeros]; decide),
    Content.get_overlay_zeros _ (by decide)]
  rfl

theorem intact_stale : Intact Cursor.small staleContent [131168] where
  ne_nil := List.cons_ne_nil _ _
  linked k a ha := by
    obtain ⟨rfl, rfl⟩ : k = 0 ∧ a = 131168 := by
      rcases k with _ | k
      · exact ⟨rfl, (Option.some.inj ha).symm⟩
      · cases ha
    decide +kernel
  nodup := List.nodup_singleton _
  marked a ha := by
    obtain rfl := List.mem_singleton.mp ha
    exact (dataBlock_mem_marked small_arranged (i := 0) (by decide)).mpr (by decide +kernel)

/-- The record is no entry, and the next one may stand behind it. -/
theorem empty_stale : entries Cursor.small staleContent [131168] = [] ∧
    vacantIn Cursor.small staleContent 131168 Cursor.firstRecord = 23 := by
  have hslot : Slot.decode 32 (staleContent.window 131168 32) 4 = .unknownKind 7 19 := by
    decide +kernel
  have hend : (Slot.decode 32 (staleContent.window 131168 32) 23).length? = none := by
    decide +kernel
  obtain ⟨hslots, hvacant⟩ := slots_step (congrArg Slot.length? hslot)
  obtain ⟨hslots', hvacant'⟩ := slots_vacant hend
  refine ⟨?_, hvacant.trans hvacant'⟩
  have hall : slots 32 (staleContent.window 131168 32) 4
      = [(4, Slot.decode 32 (staleContent.window 131168 32) 4)] := by
    rw [hslots, hslots']
  rw [entries_cons, entries_nil, List.append_nil]
  change (slots 32 (staleContent.window 131168 32) 4).filterMap (slotNode? 131168) = []
  rw [hall, hslot]
  rfl

theorem open_stale : OpenEnd Cursor.small staleContent [131168] 131168 where
  getLast := rfl
  zero x hle _ := by
    have hsize : stale.size = 23 := rfl
    have hbit : (⟨#[1]⟩ : ByteArray).size = 1 := rfl
    rw [empty_stale.2] at hle
    rw [staleContent, Content.put_outside _ (by omega), Content.put_outside _ (by omega)]

/-- A walk ends behind it and has counted nothing. -/
theorem tail_stale : (tail Cursor.small staleContent [131168] 131168).offset = 23 ∧
    (tail Cursor.small staleContent [131168] 131168).liveSize = 0 := by
  refine ⟨empty_stale.2, ?_⟩
  rw [tail, empty_stale.1]
  rfl

theorem freeBlocks_stale : freeBlocks Cursor.small staleContent = 255 := by
  decide +kernel

/-- There are enough free blocks for a record of any length. -/
theorem newBlocks_stale (length : Nat) :
    newBlocks Cursor.small (tail Cursor.small staleContent [131168] 131168) length
      ≤ freeBlocks Cursor.small (content staleVolume) := by
  rw [content_staleVolume, freeBlocks_stale, newBlocks]
  split <;> decide

theorem fits_stale : Cursor.small.endAddress ≤ Store.size staleVolume := by
  rw [size_staleVolume]
  decide

/-- The root of this volume may get an entry. -/
theorem ready_stale : Ready Cursor.small staleVolume (Node.root Cursor.small) [131168]
    (tail Cursor.small staleContent [131168] 131168) #[] := by
  have hkind : (Node.root Cursor.small).isDirectory := rfl
  have hready := Ready.of_open small_arranged fits_stale hkind rfl
    (content_staleVolume ▸ intact_stale) (fun x hx => by cases hx)
    (content_staleVolume ▸ open_stale)
  rwa [content_staleVolume, empty_stale.1] at hready

/-- An entry with a short name is appended there in a new block. -/
theorem create_appends_stale : ∃ address c tail' after,
    (create Cursor.small (Node.root Cursor.small) "b" .file 5).outcome staleVolume
      = (.ok ⟨⟨.file, address, 0, 5, "b"⟩, some (c + 4)⟩, after) ∧
    Appended Cursor.small staleContent [131168] (tail Cursor.small staleContent [131168] 131168)
      (Node.root Cursor.small) ⟨.file, address, 0, 5, "b"⟩ (c + 4) [c] (content after) ∧
    Ready Cursor.small after (Node.root Cursor.small) [131168, c] tail'
      #[⟨⟨.file, address, 0, 5, "b"⟩, some (c + 4)⟩] := by
  obtain ⟨address, place, added, tail', after, hr, -, happended, hready, -⟩ :=
    create_appends ofSuperblock_small staleVolume fits_stale ready_stale
      (show validateName "b" = .ok () by decide) (by simp) (by rw [tail_stale.2]; decide)
      (by decide) (newBlocks_stale _) .file 5
  rw [content_staleVolume] at happended
  have hfull : ¬ 23 + Record.encodedSize ⟨.file, address, 0, 5, "b"⟩ ≤ Cursor.small.blockSize :=
    Nat.not_le_of_lt (show 32 < 42 by decide)
  have hplace := happended.place_eq
  rw [tail_stale.1, if_neg hfull] at hplace
  obtain ⟨c, rfl, rfl⟩ := hplace
  exact ⟨address, c, tail', after, hr, happended, hready⟩

/-! ## Blocks that are too small -/

/-- A record that runs over the end of a block is not read there: its name ought to end where the
block has ended. -/
theorem nodesFrom_overrun {record : Record} {bytes : ByteArray}
    (hrecord : record.Encodable layout.blockSize)
    (hbytes : record.encode layout.blockSize = .ok bytes) (m : Content) (a : Nat) {offset : Nat}
    (hlong : layout.blockSize < offset + record.encodedSize) :
    nodesFrom layout (m.put (a + offset) bytes) a offset = [] := by
  have hlost : (Slot.decode layout.blockSize
      ((m.put (a + offset) bytes).window a layout.blockSize) offset).length? = none := by
    rw [Slot.decode_vacant]
    · rfl
    rw [get_block, Content.size_window]
    obtain rfl := Except.ok.inj ((Record.encode_eq hrecord).symm.trans hbytes)
    have hname : record.name.utf8ByteSize < 2 ^ 8 := Nat.lt_succ_of_le hrecord.name_le
    have hheader : Record.nameSizeOffset < (record.header layout.blockSize).size := by
      rw [Record.size_header]
      decide
    split
    · left
      rw [← Nat.add_assoc, Content.put_add m (by rw [ByteArray.size_append]; omega),
        Bytes.get_append_left hheader, Record.get_header_nameSize, UInt8.toNat_ofNat',
        Nat.mod_eq_of_lt hname, Nat.add_assoc]
      exact hlong
    · exact .inr rfl
  rw [nodesFrom, (slots_vacant hlost).1, List.filterMap_nil]

/-- A record that no block has room for is lost. It begins in a new block and runs over its end, and
a walk takes the block for an empty one. -/
theorem Entered.overrun {tail : Cursor} {record : Record} {place : Nat}
    (regular : layout.Arranged IsSize) (intact : Intact layout m chain)
    (entered : Entered layout m chain tail parent record place m')
    (hoffset : Cursor.firstRecord ≤ tail.offset)
    (hlong : layout.blockSize < Cursor.firstRecord + record.encodedSize)
    (hbehind : ∀ b ∈ chain, ∀ c ∈ layout.covered, c ∉ chain → b < c) :
    ∃ c, Intact layout m' (chain ++ [c]) ∧
      entries layout m' (chain ++ [c]) = entries layout m chain := by
  obtain ⟨hrecord, added, c, m₂, m₃, bytes, prepared, found, rfl, hbytes, rfl⟩ := entered
  have hchosen := found.chosen
  rw [if_neg (by omega)] at hchosen
  obtain ⟨rfl, hvacant⟩ := hchosen
  have intact' := found.written.intact
  have hc := intact'.covered (List.mem_append_right chain (List.mem_singleton_self c))
  have hnot : c ∉ chain := fun hmem =>
    (List.nodup_append.mp intact'.nodup).2.2 c hmem c (List.mem_singleton_self c) rfl
  have hfirst : Cursor.firstRecord = Layout.linkSize ∧ Layout.linkSize = 4 := ⟨rfl, rfl⟩
  have hdata := Layout.Regular.data_le_of_mem hc
  have hge := regular.nine_le
  rw [hvacant]
  -- the record lies behind the old blocks and behind the link of the new one
  have hold : ∀ b ∈ chain, ∀ x, layout.InBlock b x →
      m₃.put (c + Cursor.firstRecord) bytes x = m₃ x := by
    rintro b hb x ⟨-, hlt⟩
    have hlt' := hbehind b hb c hc hnot
    have := regular.apart_of_mem (intact.covered hb) hc (Nat.ne_of_lt hlt')
    exact Content.put_outside m₃ (by omega)
  have htarget : ∀ b ∈ chain ++ [c],
      target layout (m₃.put (c + Cursor.firstRecord) bytes) b = target layout m₃ b := by
    intro b hb
    refine target_congr fun i hi => ?_
    rcases List.mem_append.mp hb with hb | hb
    · exact hold b hb _ ⟨by omega, by omega⟩
    · rw [List.mem_singleton.mp hb]
      exact Content.put_outside m₃ (by omega)
  have hmarked : marked layout (m₃.put (c + Cursor.firstRecord) bytes) = marked layout m₃ :=
    marked_congr regular fun x _ hx => Content.put_outside m₃ (by omega)
  refine ⟨c, intact'.congr htarget fun b hb => hmarked ▸ intact'.marked b hb, ?_⟩
  rw [entries_append, entries_cons, nodesFrom_overrun hrecord hbytes m₃ c hlong, entries_nil,
    List.append_nil, List.append_nil]
  refine entries_congr fun b hb x hle hx => ?_
  rw [hold b hb x hx, same_of_payload found.written.payload_eq b hb x hle hx,
    prepared.same_chain regular intact b hb x hx]

/-- **An entry with a long name is lost** in a directory in front of all other blocks. It is created
without a failure, and a new walk meets what was there before. -/
theorem create_overruns {τ : Type} [Store τ] [Reliable τ] (regular : layout.Arranged IsSize)
    (store : τ) (hsize : layout.endAddress ≤ Store.size store) {tail : Cursor}
    {before : Array Node} (ready : Ready layout store parent chain tail before) {name : String}
    (hvalid : validateName name = .ok ()) (hnew : ∀ node ∈ before, node.record.name ≠ name)
    (hlive : tail.liveSize + (Record.headerSize + name.utf8ByteSize) < 2 ^ 32)
    (hlong : layout.blockSize < Cursor.firstRecord + (Record.headerSize + name.utf8ByteSize))
    (hbound : ∀ b ∈ layout.covered,
      b + Cursor.firstRecord + (Record.headerSize + name.utf8ByteSize) ≤ Store.size store)
    (hbehind : ∀ b ∈ chain, ∀ c ∈ layout.covered, c ∉ chain → b < c)
    (hfree : newBlocks layout tail (Record.headerSize + name.utf8ByteSize)
      ≤ freeBlocks layout (content store))
    (kind : Kind) (mtime : UInt64) :
    ∃ node after tail', (create layout parent name kind mtime).outcome store = (.ok node, after) ∧
      (Cursor.start layout parent.record.address).drain layout after #[]
        = .ok (tail', before) := by
  obtain ⟨address, place, after, hr, hsame, entered⟩ :=
    ready.create_enters regular store hsize hvalid hnew hlive hbound hfree kind mtime
  obtain ⟨last, hopen, rfl, rfl⟩ := ready.opened regular hsize
  obtain ⟨c, intact, hentries⟩ :=
    entered.overrun regular ready.intact (vacantIn_ge ..) hlong hbehind
  have hfirst : (chain ++ [c])[0]? = some parent.record.address := by
    rw [List.getElem?_append_left (List.length_pos_of_ne_nil ready.intact.ne_nil)]
    exact ready.first
  have hdrain := (start_ahead regular intact hfirst List.getLast?_concat).drain_eq regular
    (hsame ▸ hsize) #[]
  rw [hentries, Array.empty_append] at hdrain
  exact ⟨_, after, _, hr, hdrain⟩

/-- In blocks of 32 bytes this happens to a name of eleven bytes, with all that is needed there. -/
theorem create_cramped :
    Layout.ofSuperblock ⟨32, 4355, 0⟩ 32 = .ok Cursor.small ∧
    Cursor.small.endAddress ≤ Store.size staleVolume ∧
    Ready Cursor.small staleVolume (Node.root Cursor.small) [131168]
      (tail Cursor.small staleContent [131168] 131168) #[] ∧
    validateName "abcdefghijk" = .ok () ∧
    (tail Cursor.small staleContent [131168] 131168).liveSize
      + (Record.headerSize + "abcdefghijk".utf8ByteSize) < 2 ^ 32 ∧
    newBlocks Cursor.small (tail Cursor.small staleContent [131168] 131168)
      (Record.headerSize + "abcdefghijk".utf8ByteSize)
      ≤ freeBlocks Cursor.small (content staleVolume) ∧
    ∃ node after tail',
      (create Cursor.small (Node.root Cursor.small) "abcdefghijk" .file 5).outcome staleVolume
        = (.ok node, after) ∧
      (Cursor.start Cursor.small 131168).drain Cursor.small after #[] = .ok (tail', #[]) := by
  have hvalid : validateName "abcdefghijk" = .ok () := by decide
  have hlive : (tail Cursor.small staleContent [131168] 131168).liveSize
      + (Record.headerSize + "abcdefghijk".utf8ByteSize) < 2 ^ 32 := by
    rw [tail_stale.2]
    decide
  -- the volume goes on behind the last block of the layout, and no record runs over its end
  have hbound : ∀ b ∈ Cursor.small.covered, b + Cursor.firstRecord
      + (Record.headerSize + "abcdefghijk".utf8ByteSize) ≤ Store.size staleVolume := by
    intro b hb
    have hend := small_arranged.end_of_mem hb
    have hsmall : Cursor.small.blockSize = 32 ∧ Cursor.small.endAddress = 139360 ∧
        Cursor.firstRecord + (Record.headerSize + "abcdefghijk".utf8ByteSize) = 33 :=
      ⟨rfl, rfl, rfl⟩
    rw [size_staleVolume]
    omega
  have hbehind : ∀ b ∈ [131168], ∀ c ∈ Cursor.small.covered, c ∉ [131168] → b < c := by
    intro b hb c hc hne
    obtain rfl := List.mem_singleton.mp hb
    have hdata : 131168 ≤ c := Layout.Regular.data_le_of_mem hc
    rw [List.mem_singleton] at hne
    omega
  exact ⟨ofSuperblock_small, fits_stale, ready_stale, hvalid, hlive, newBlocks_stale _,
    create_overruns small_arranged staleVolume fits_stale ready_stale hvalid (by simp) hlive
      (by decide) hbound hbehind (newBlocks_stale _) .file 5⟩

end ChainFs.Directory
