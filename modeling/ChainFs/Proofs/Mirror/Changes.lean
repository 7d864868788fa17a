import ChainFs.Proofs.Mirror.Questions
import ChainFs.Proofs.Volume.Confined

/-!
# Changes of a file and of memory

Whatever a volume that opens holds, its calls write inside the store only. A link is written where
one was read before, or into a block of the data region; the bitmap and the counter are written
where they were read; and so are records, and the ends of directories. So a file stays as long as it
was, and goes on mirroring the memory.

* `Node.Held` — a node whose record was read inside the store;
* `Chain.writeRange_mirrored`, `Directory.create_mirrored` — a write to a chain and a new entry;
* `Volume.Call.run_mirrored` — every call;
* `Volume.file_mirrors_memory` — runs of calls on a file and on memory with the same bytes answer
  the same, and leave the same bytes behind.

Nothing is known of the image but that it opens, so a change cannot be followed through branches. It
is followed through addresses: each one that is written was read before, on both sides alike, or it
comes from the bitmap.
-/

namespace ChainFs

open Store

variable {size : Nat} {layout : Layout}

/-! ## Blocks -/

theorem Store.Memory.end_le_of_readNumber {memory : Memory} {width offset n : Nat}
    (h : readNumber width memory offset = .ok n) : offset + width ≤ memory.bytes.size := by
  rcases hread : Store.read memory offset width with e | bytes
  · rw [readNumber, hread] at h
    cases h
  · exact Memory.end_le_of_read hread

theorem Bitmap.isBlock_of_locate {a : Nat} {position : Position}
    (h : locate layout a = .ok position) : layout.IsBlock a := by
  unfold locate at h
  split at h
  · cases h
  rename_i hvalid
  rw [not_or, not_not, not_not] at hvalid
  exact ⟨hvalid.1, hvalid.2⟩

/-- A bitmap block is written back where it was read. -/
theorem Bitmap.assign_mirrored (hblock : 0 < layout.blockSize) (a : Nat) (value : Bool) :
    Edit.Mirrored (assign layout a value) (assign layout a value) size fun _ =>
      layout.IsBlock a := by
  refine .bind (.ofExcept fun _ => isBlock_of_locate) fun position ha => ?_
  refine .bind (P := fun block => block.size = layout.blockSize ∧
    position.block + layout.blockSize ≤ size) (.ask ?_ ?_) fun block ⟨hlength, hend⟩ => ?_
  · exact fun memory file mirrors => mirrors.read_same hblock
  · exact fun memory block hsize hread =>
      ⟨Store.size_read hread, hsize ▸ Memory.end_le_of_read hread⟩
  · refine .bind (.write ?_) fun _ _ => .pure ha
    rw [size_blockWithBit, hlength]
    exact hend

namespace Block

/-- The counter is written where it was read. -/
theorem recount_mirrored (change : Nat → Nat) :
    Edit.Mirrored (recount layout change) (recount layout change) size fun _ => True := by
  refine .bind (P := fun _ => counterAddress layout + 4 ≤ size) (.ask ?_ ?_) fun count hend => ?_
  · exact fun memory file mirrors => mirrors.readNumber_same (by decide) _
  · exact fun memory count hsize hread => hsize ▸ Memory.end_le_of_readNumber hread
  · exact .write (by rw [Bytes.size_ofNumber]; exact hend)

theorem acquire_mirrored (regular : layout.Regular) (hsize : layout.endAddress ≤ size) :
    Edit.Mirrored (acquire layout) (acquire layout) size layout.IsBlock := by
  have hblock := regular.blockSize_pos
  refine .bind (P := fun _ => True) (.ask ?_ fun _ _ _ _ => trivial) fun a _ => ?_
  · exact fun memory file mirrors => Bitmap.nextFree_same mirrors hblock
  refine .bind (Bitmap.assign_mirrored hblock a true) fun wasAllocated ha => ?_
  refine .bind (.write ?_) fun _ _ => .bind (P := fun _ => True) ?_ fun _ _ => .pure ha
  · rw [Bytes.size_zeros]
    exact ha.end_le.trans hsize
  · unfold countAcquired
    split
    · exact .pure trivial
    · exact recount_mirrored increment

end Block

/-! ## Chains -/

namespace Chain

/-- A link that can be followed was read inside the store. -/
theorem end_le_of_next {memory : Memory} {a target : Nat}
    (h : next layout memory a = .ok target) : a + Layout.linkSize ≤ memory.bytes.size := by
  rcases hread : readNumber 4 memory a with e | block
  · rw [next, hread] at h
    cases h
  · exact Memory.end_le_of_readNumber hread

theorem link_mirrored {a : Nat} (ha : a + Layout.linkSize ≤ size) (b : Nat) :
    Edit.Mirrored (link layout a b) (link layout a b) size fun _ => True := by
  refine .bind (P := fun _ => True) (.ofExcept fun _ _ => trivial) fun block _ => ?_
  exact .write (by rw [Bytes.size_ofNumber]; exact ha)

variable (regular : layout.Regular) (hsize : layout.endAddress ≤ size)
include regular hsize

/-- A new block is linked where the end of the chain was read. -/
theorem nextOrExtend_mirrored (a : Nat) :
    Edit.Mirrored (nextOrExtend layout a) (nextOrExtend layout a) size layout.IsBlock := by
  refine .bind (P := fun target => (target = 0 ∨ layout.IsBlock target) ∧
    a + Layout.linkSize ≤ size) (.ask ?_ ?_) fun target ⟨htarget, hend⟩ => ?_
  · exact fun memory file mirrors => next_same mirrors layout a
  · exact fun memory target hsize hnext =>
      ⟨isBlock_of_next hnext, hsize ▸ end_le_of_next hnext⟩
  split
  · rename_i hne
    exact .pure (htarget.resolve_left hne)
  · refine .bind (Block.acquire_mirrored regular hsize) fun b hb => ?_
    exact .bind (link_mirrored hend b) fun _ _ => .pure hb

theorem advance_mirrored (count : Nat) {a : Nat} (ha : layout.IsBlock a) :
    Edit.Mirrored (advance layout count a) (advance layout count a) size layout.IsBlock := by
  induction count generalizing a with
  | zero => exact .pure ha
  | succ count ih => exact .bind (nextOrExtend_mirrored regular hsize a) fun b hb => ih hb

/-- Pieces that fit behind the links of their blocks. -/
theorem writePieces_mirrored {pieces : List ByteArray} {a inBlock : Nat} (ha : layout.IsBlock a)
    (hfirst : ∀ piece ∈ pieces.head?, inBlock + piece.size ≤ layout.payloadSize)
    (hrest : ∀ piece ∈ pieces.tail, piece.size ≤ layout.payloadSize) :
    Edit.Mirrored (writePieces layout a inBlock pieces) (writePieces layout a inBlock pieces) size
      fun _ => True := by
  have hsum := payloadSize_add regular
  induction pieces generalizing a inBlock with
  | nil => exact .pure trivial
  | cons piece rest ih =>
    have hend := ha.end_le
    have hfits := hfirst piece rfl
    have hwrite : Edit.Mirrored (Store.write (a + Layout.linkSize + inBlock) piece)
        (Store.write (a + Layout.linkSize + inBlock) piece) size fun _ => True :=
      .write (by omega)
    cases rest with
    | nil => exact hwrite
    | cons next rest =>
      rw [writePieces, writePieces]
      · refine .bind hwrite fun _ _ => ?_
        refine .bind (nextOrExtend_mirrored regular hsize a) fun b hb => ih hb ?_ ?_
        · intro piece' hpiece'
          obtain rfl := Option.some.inj hpiece'
          rw [Nat.zero_add]
          exact hrest next (List.mem_cons_self ..)
        · exact fun piece' hpiece' => hrest piece' (List.mem_cons_of_mem _ hpiece')
      all_goals exact List.cons_ne_nil next rest

/-- A write to a chain, whatever the links in it say. -/
theorem writeRange_mirrored {start : Nat} (haligned : start % layout.blockSize = 0)
    (offset : Nat) (data : ByteArray) :
    Edit.Mirrored (writeRange layout start offset data) (writeRange layout start offset data) size
      fun _ => True := by
  have hmod := Nat.mod_lt offset (payloadSize_pos regular)
  unfold writeRange
  split
  · exact .throw
  rename_i hdata
  split
  · exact .pure trivial
  dsimp only
  refine .bind (advance_mirrored regular hsize _ ⟨haligned, not_not.mp hdata⟩) fun a ha => ?_
  refine writePieces_mirrored regular hsize ha (fun piece hpiece => ?_)
    fun piece hpiece => size_le_of_tail_pieces hpiece
  have hle := size_le_of_head_pieces hpiece
  omega

end Chain

/-! ## Where records were read -/

/-- The node's first block is at a block boundary, and its record, if it has one, is inside a store
of `size` bytes. -/
structure Node.Held (layout : Layout) (size : Nat) (node : Node) : Prop where
  aligned : node.record.address % layout.blockSize = 0
  inside : ∀ x, node.recordAddress = some x → x + Record.headerSize ≤ size

section Walks

variable {memory : Memory} {cursor moved : Cursor} {node : Node}

/-- A node that was read is held. -/
theorem Cursor.ReadFrom.held (h : ReadFrom layout memory cursor node) :
    node.Held layout memory.bytes.size := by
  obtain ⟨bytes, place, hread, hslot, hrecord, hoffset, hend⟩ := h
  obtain ⟨number, -, haddress⟩ := Slot.address_of_record hslot
  have hblock := Memory.end_le_of_read hread
  refine ⟨haddress ▸ Nat.mul_mod_left .., fun x hx => ?_⟩
  obtain rfl := Option.some.inj (hrecord.symm.trans hx)
  rw [Record.encodedSize] at hoffset
  omega

theorem Directory.find_held {address : Nat} {name : String}
    (h : find layout memory address name = .ok (some node)) :
    node.Held layout memory.bytes.size := by
  obtain ⟨cursor, hseek⟩ := seek_of_find h
  have hfound := (Cursor.seek_keeps (P := fun _ => True) (fun _ _ => trivial) trivial hseek).2
  exact (hfound node rfl).held

theorem Volume.descend_held {top : Node} {names : List String}
    (htop : top.Held layout memory.bytes.size)
    (h : descend layout memory top names = .ok (some node)) :
    node.Held layout memory.bytes.size := by
  induction names generalizing top with
  | nil =>
    obtain rfl := Option.some.inj (Except.ok.inj h)
    exact htop
  | cons name rest ih =>
    obtain ⟨-, child, hfind, hrest⟩ := of_descend_cons h
    exact ih (Directory.find_held hfind) hrest

theorem Volume.resolve_held (regular : layout.Regular) {path : String}
    (h : resolve layout memory path = .ok node) : node.Held layout memory.bytes.size := by
  have hroot : (Node.root layout).Held layout memory.bytes.size :=
    ⟨regular.isBlock_data.aligned, fun _ hx => nomatch hx⟩
  exact descend_held hroot (scan_of_resolve h)

/-- A walk that has not ended goes on. -/
theorem Cursor.unfinished_of_next (h : cursor.next layout memory = (moved, some (.ok node))) :
    moved.finished = false := by
  unfold next at h
  split at h
  · cases h
  generalize cursor.liveSize = liveSize, cursor.budget = budget, cursor.block = block,
    cursor.offset = offset at h
  fun_induction nextFrom layout memory liveSize budget block offset with
  | case2 => cases h; rfl
  | case6 => rename_i ih; exact ih h
  | _ => cases h

/-- The end of a search in vain is in a block that was read. -/
theorem Cursor.end_le_of_seek {wanted : Node → Bool} (hcursor : cursor.finished = false)
    (h : cursor.seek layout memory wanted = .ok (moved, none)) :
    moved.block + layout.blockSize ≤ memory.bytes.size := by
  fun_induction cursor.seek layout memory wanted with
  | case1 cursor after hstep =>
    cases h
    rw [next, if_neg (by simp [hcursor])] at hstep
    generalize cursor.liveSize = liveSize, cursor.budget = budget, cursor.block = block,
      cursor.offset = offset at hstep
    fun_induction nextFrom layout memory liveSize budget block offset with
    | case4 => rename_i hread _ _ _; cases hstep; exact Memory.end_le_of_read hread
    | case6 => rename_i ih; exact ih hstep
    | _ => cases hstep
  | case2 => cases h
  | case3 => cases h
  | case4 cursor after node hstep hwanted ih => exact ih (unfinished_of_next hstep) h

theorem Directory.end_le_of_tailFor {address : Nat} {name : String} {tail : Cursor}
    (h : tailFor layout memory address name = .ok tail) :
    tail.block + layout.blockSize ≤ memory.bytes.size :=
  Cursor.end_le_of_seek rfl (seek_of_tailFor h)

end Walks

/-! ## Directories -/

namespace Directory

/-- A record is rewritten where it was read. -/
theorem updateNode_mirrored {node : Node} (held : node.Held layout size) (newSize : UInt32)
    (now : UInt64) :
    Edit.Mirrored (updateNode node newSize now) (updateNode node newSize now) size
      fun _ => True := by
  unfold updateNode
  split
  · rename_i x hx
    have hend := held.inside x hx
    rw [Record.headerSize] at hend
    refine .bind (.write ?_) fun _ _ => .write ?_
    all_goals
      simp only [Bytes.size_ofNumber, Record.sizeOffset, Record.mtimeOffset]
      omega
  · exact .pure trivial

variable (regular : layout.Regular) (hsize : layout.endAddress ≤ size)
include regular hsize

/-- The place for a record is behind the end of its directory, or in a new block. -/
theorem placeFor_mirrored {tail : Cursor} (htail : tail.block + layout.blockSize ≤ size)
    {length : Nat} (hlength : length ≤ Record.headerSize + Record.maxNameSize) :
    Edit.Mirrored (placeFor layout tail length) (placeFor layout tail length) size fun place =>
      place + length ≤ size := by
  have hge := regular.blockSize_ge
  unfold placeFor
  split
  · exact .pure (by omega)
  · refine .bind (Block.acquire_mirrored regular hsize) fun added hadded => ?_
    have hend := hadded.end_le
    have hlink : tail.block + Layout.linkSize ≤ size := by
      rw [Layout.linkSize]
      omega
    have hfits := regular.record_le hlength
    exact .bind (Chain.link_mirrored hlink added) fun _ _ => .pure (by omega)

theorem append_mirrored {tail : Cursor} (htail : tail.block + layout.blockSize ≤ size)
    (name : String) (kind : Kind) (now : UInt64) :
    Edit.Mirrored (append layout tail name kind now) (append layout tail name kind now) size
      fun _ => True := by
  refine .bind (Block.acquire_mirrored regular hsize) fun address _ => ?_
  dsimp only
  refine .bind (.ofExcept fun bytes hencode => hencode) fun bytes hencode => ?_
  have hencodable := Record.encodable_of_encode hencode
  have hbytes := Record.size_of_encode hencodable hencode
  refine .bind (placeFor_mirrored regular hsize htail hencodable.encodedSize_le)
    fun place hend => ?_
  exact .bind (.write (hbytes ▸ hend)) fun _ _ => .pure trivial

/-- A new entry, wherever its directory is. -/
theorem create_mirrored {parent : Node} (held : parent.Held layout size) (name : String)
    (kind : Kind) (now : UInt64) :
    Edit.Mirrored (create layout parent name kind now) (create layout parent name kind now) size
      fun _ => True := by
  refine .bind (P := fun _ => True) (.ofExcept fun _ _ => trivial) fun _ _ => ?_
  refine .bind (P := fun tail => tail.block + layout.blockSize ≤ size) (.ask ?_ ?_)
    fun tail htail => ?_
  · exact fun memory file mirrors => tailFor_same mirrors regular.blockSize_pos _ name
  · exact fun memory tail hsize hanswer => hsize ▸ end_le_of_tailFor hanswer
  refine .bind (P := fun _ => True) (.ofExcept fun _ _ => trivial) fun newSize _ => ?_
  exact .bind (updateNode_mirrored held newSize now) fun _ _ =>
    append_mirrored regular hsize htail name kind now

end Directory

/-! ## Calls -/

namespace Volume

section Calls

variable (regular : layout.Regular) (hsize : layout.endAddress ≤ size) (now : UInt64)
include regular

/-- The node that a path leads to is held. -/
theorem resolve_mirrored (path : String) :
    Edit.Mirrored (Edit.ask (resolve layout · path)) (Edit.ask (resolve layout · path)) size
      (Node.Held layout size) :=
  .ask (fun _ _ mirrors => resolve_same mirrors regular.blockSize_pos path)
    fun _ _ hsize hnode => hsize ▸ resolve_held regular hnode

include hsize

theorem write_mirrored (path : String) (offset : Nat) (data : ByteArray) :
    Edit.Mirrored (write layout now path offset data) (write layout now path offset data) size
      fun _ => True := by
  refine .bind (resolve_mirrored regular path) fun node held => ?_
  split
  · exact .throw
  split
  · exact .pure trivial
  refine .bind (P := fun _ => True) (.ofExcept fun _ _ => trivial) fun newSize _ => ?_
  refine .bind (Directory.updateNode_mirrored held newSize now) fun _ _ => ?_
  refine .bind (Chain.writeRange_mirrored regular hsize held.aligned offset data) fun _ _ => ?_
  exact .pure trivial

theorem create_mirrored (parent name : String) (kind : Kind) :
    Edit.Mirrored (create layout now parent name kind) (create layout now parent name kind) size
      fun _ => True :=
  .bind (resolve_mirrored regular parent) fun _ held =>
    Directory.create_mirrored regular hsize held name kind now

theorem createAt_mirrored (path : String) (kind : Kind) :
    Edit.Mirrored (createAt layout now path kind) (createAt layout now path kind) size
      fun _ => True :=
  .bind (P := fun _ => True) (.ofExcept fun _ _ => trivial) fun (parent, name) _ =>
    create_mirrored regular hsize now parent name kind

/-- A call answers the same on a file and on the memory it mirrors, and leaves them alike. -/
theorem Call.run_mirrored (call : Call) :
    Edit.Mirrored (call.run layout now) (call.run layout now) size fun _ => True := by
  have hblock := regular.blockSize_pos
  have hask : ∀ {α : Type} {question : Memory → Except Error α} {question' : File → Except Error α}
      (answer : α → Reply),
      (∀ memory file, Mirrors size memory file →
        SameAnswer (question memory) (question' file)) →
      Edit.Mirrored (answer <$> Edit.ask question) (answer <$> Edit.ask question') size
        fun _ => True :=
    fun answer h => .map (.ask h fun _ _ _ _ => trivial)
  cases call with
  | scan path => exact hask _ fun memory file mirrors => scan_same mirrors hblock path
  | lookup path => exact hask _ fun memory file mirrors => lookup_same mirrors hblock path
  | list path => exact hask _ fun memory file mirrors => list_same mirrors hblock path
  | read path offset length =>
    exact hask _ fun memory file mirrors =>
      read_same mirrors hblock (Chain.payloadSize_pos regular) path offset length
  | usage => exact hask _ fun memory file mirrors => usage_same mirrors hblock
  | write path offset data => exact .map (write_mirrored regular hsize now path offset data)
  | create parent name kind => exact .map (create_mirrored regular hsize now parent name kind)
  | makeDirectory path => exact .map (createAt_mirrored regular hsize now path .directory)
  | createFile path => exact .map (createAt_mirrored regular hsize now path .file)

end Calls

/-! ## Runs -/

theorem Call.runAll_mirrored (regular : layout.Regular) (hsize : layout.endAddress ≤ size)
    (calls : List (UInt64 × Call)) {memory : Memory} {file : File}
    (mirrors : Mirrors size memory file) :
    List.Forall₂ SameAnswer (Call.runAll layout calls memory).1
        (Call.runAll layout calls file).1 ∧
      Mirrors size (Call.runAll layout calls memory).2 (Call.runAll layout calls file).2 := by
  induction calls generalizing memory file with
  | nil => exact ⟨.nil, mirrors⟩
  | cons timed rest ih =>
    obtain ⟨now, call⟩ := timed
    obtain ⟨hsame, mirrors', -⟩ := Call.run_mirrored regular hsize now call memory file mirrors
    obtain ⟨hrest, mirrors''⟩ := ih mirrors'
    rw [Call.runAll_cons, Call.runAll_cons]
    exact ⟨.cons hsame hrest, mirrors''⟩

/-- Whatever bytes a volume opens from, a writable file that holds them opens as well, with the same
layout; no file is longer than the positions in it reach. All calls on it answer as they do in
memory, up to how a failed access is told. The file stays as long as it is, so that nothing is
written at or past its length, however far it could grow, and it holds the same bytes in the end. -/
theorem file_mirrors_memory {bytes : ByteArray} {content : Bytes.Sparse} {blockSize : UInt32}
    (hbytes : content.toBytes = bytes) (hlt : bytes.size < File.positionLimit)
    (hload : load (Memory.mk bytes) blockSize = .ok layout) (sizeLimit : Nat)
    (calls : List (UInt64 × Call)) :
    load (File.ofContent sizeLimit content true) blockSize = .ok layout ∧
      List.Forall₂ SameAnswer (Call.runAll layout calls (Memory.mk bytes)).1
        (Call.runAll layout calls (File.ofContent sizeLimit content true)).1 ∧
      (Call.runAll layout calls (File.ofContent sizeLimit content true)).2.content.toBytes
        = (Call.runAll layout calls (Memory.mk bytes)).2.bytes ∧
      (Call.runAll layout calls (File.ofContent sizeLimit content true)).2.content.size
        = bytes.size := by
  have mirrors := mirrors_ofContent hbytes hlt sizeLimit
  obtain ⟨regular, hsize⟩ := regular_of_load hload
  have hblock : 0 < blockSize.toNat := by
    obtain ⟨superblock, -, hlayout⟩ := sealed_of_load hload
    rw [← (ofSuperblock_fields hlayout).2.1]
    exact regular.blockSize_pos
  obtain ⟨hsame, mirrors'⟩ := Call.runAll_mirrored regular hsize calls mirrors
  exact ⟨(load_same mirrors hblock).of_ok hload, hsame, mirrors'.toBytes_eq, mirrors'.size_content⟩

theorem file_mirrors_memory_on_blank :
    ∃ (volume : Memory) (file : File),
      format 512 (blank 4195840) = .ok smallest volume ∧ file.content.toBytes = volume.bytes ∧
      load file 512 = .ok smallest ∧
      List.Forall₂ SameAnswer
        (Call.runAll smallest [(5, .makeDirectory "/d"), (6, .createFile "/d/a"),
          (7, .write "/d/a" 600 [1].toByteArray), (8, .read "/d/b" 0 9)] volume).1
        (Call.runAll smallest [(5, .makeDirectory "/d"), (6, .createFile "/d/a"),
          (7, .write "/d/a" 600 [1].toByteArray), (8, .read "/d/b" 0 9)] file).1 ∧
      (Call.runAll smallest [(5, .makeDirectory "/d"), (6, .createFile "/d/a"),
          (7, .write "/d/a" 600 [1].toByteArray), (8, .read "/d/b" 0 9)] file).2.content.size
        = 4195840 := by
  obtain ⟨volume, hformat⟩ := format_blank
  obtain ⟨hsize, hformatted⟩ := formatted_of_ok hformat
  have hload := hformatted.sealed.load_eq hformatted.regular (hformatted.fits.trans hsize.ge)
  have hbytes : volume.bytes.size = 4195840 := hsize.trans (size_blank _)
  have hlt : volume.bytes.size < File.positionLimit := by
    rw [hbytes]
    decide
  obtain ⟨hfile, hanswers, -, hlength⟩ :=
    file_mirrors_memory (Bytes.Sparse.toBytes_ofBytes volume.bytes) hlt hload 4195840 _
  exact ⟨volume, _, hformat, Bytes.Sparse.toBytes_ofBytes _, hfile, hanswers, hlength.trans hbytes⟩

end Volume

end ChainFs
