import ChainFs.Proofs.Block
import ChainFs.Proofs.Directory.Located
import ChainFs.Proofs.Volume.Steps

/-!
# Where changes write

What a volume that opens holds may be damaged in any way, and still changes write to three places
only: the bitmap, the counter of the superblock, and the data region.

* `Layout.Writable`, `Confined` — an address in one of these places; contents that differ there
  only;
* `Chain.writeRange_bounded`, `Directory.create_bounded` — a write to a chain and a new entry;
* `Volume.changes_confined` — every call, if the directories that its path leads through start in
  the data region.

A link is checked when it is followed, but the first block of a directory is not: a record that says
that a directory starts elsewhere makes the next entry go there.

An edit is bounded by what its own steps write, and by what later steps may rely on. Both go through
one rule for steps that follow each other, as for `Edit.Ends`, only that here nothing is known of
the content.
-/

namespace ChainFs

open Store Block

/-- Whether an address is in the bitmap, in the counter, or in the data region. -/
def Layout.Writable (layout : Layout) (x : Nat) : Prop :=
  layout.bitmapAddress ≤ x ∧ x < layout.dataAddress ∨
    counterAddress layout ≤ x ∧ x < counterAddress layout + 4 ∨ layout.InData x

/-- No byte is different but in the places that changes write to. -/
def Confined (layout : Layout) (m m' : Content) : Prop :=
  ∀ x, ¬ layout.Writable x → m' x = m x

variable {layout : Layout} {m m' m'' : Content}

namespace Confined

theorem refl (layout : Layout) (m : Content) : Confined layout m m :=
  fun _ _ => rfl

theorem trans (h : Confined layout m m') (h' : Confined layout m' m'') : Confined layout m m'' :=
  fun x hx => (h' x hx).trans (h x hx)

/-- A write to the data region. -/
theorem of_put {offset : Nat} {bytes : ByteArray} (hdata : layout.dataAddress ≤ offset)
    (hend : offset + bytes.size ≤ layout.endAddress) : Confined layout m (m.put offset bytes) := by
  intro x hx
  refine Content.put_outside m ?_
  by_contra hinside
  exact hx (.inr (.inr ⟨by omega, by omega⟩))

theorem of_growth (regular : layout.Regular) {touched taken : List Nat} {counted : Nat}
    (growth : Growth layout m touched taken counted m') : Confined layout m m' := by
  intro x hx
  refine growth.same x ⟨?_, ?_, fun a ha hxa => ?_⟩
  · by_contra hinside
    exact hx (.inl (by omega))
  · by_contra hinside
    exact hx (.inr (.inl (by omega)))
  · have hblock := regular.isBlock_of_mem (growth.covered a ha)
    have hdata := hblock.inData.1
    have hend := hblock.end_le
    obtain ⟨hle, hlt⟩ := hxa
    exact hx (.inr (.inr ⟨by omega, by omega⟩))

end Confined

/-- Whatever the store holds, an edit writes where changes write, and its value is as `good`
says. -/
def Edit.Bounded {σ α : Type} [Store σ] [Faithful σ] (act : Edit σ α) (layout : Layout) (size : Nat)
    (good : α → Prop) : Prop :=
  ∀ m, act.Ends size m fun r m' => Confined layout m m' ∧ ∀ a, r = .ok a → good a

variable {σ : Type} [Store σ] [Faithful σ] {size : Nat}

namespace Edit.Bounded

variable {α β : Type} {P : α → Prop} {Q : β → Prop}

/-- Steps that are bounded one by one. -/
theorem bind {first : Edit σ α} {second : α → Edit σ β} (hfirst : first.Bounded layout size P)
    (hsecond : ∀ a, P a → (second a).Bounded layout size Q) :
    (first >>= second).Bounded layout size Q := by
  intro m
  refine .bind (hfirst m) ?_ ?_
  · rintro e m' ⟨hconfined, -⟩
    exact ⟨hconfined, fun b hb => nomatch hb⟩
  · rintro a m' ⟨hconfined, hgood⟩
    refine (hsecond a (hgood a rfl) m').mono ?_
    rintro r m'' ⟨hconfined', hgood'⟩
    exact ⟨hconfined.trans hconfined', hgood'⟩

/-- A question changes nothing. -/
theorem ask {question : σ → Except Error α} (h : ∀ store a, question store = .ok a → P a) :
    (Edit.ask question).Bounded layout size P :=
  fun m => .ask fun store _ _ => ⟨.refl layout m, h store⟩

theorem ofExcept {r : Except Error α} (h : ∀ a, r = .ok a → P a) :
    (Edit.ofExcept r : Edit σ α).Bounded layout size P :=
  ask fun _ => h

theorem pure {a : α} (h : P a) : (Pure.pure a : Edit σ α).Bounded layout size P :=
  fun m => .pure ⟨.refl layout m, fun _ hb => Except.ok.inj hb ▸ h⟩

theorem throw {e : Error} : (MonadExcept.throw e : Edit σ α).Bounded layout size P :=
  fun m => .throw ⟨.refl layout m, fun _ h => nomatch h⟩

/-- A write to the data region. -/
theorem write {offset : Nat} {bytes : ByteArray} (hsize : layout.endAddress ≤ size)
    (hdata : layout.dataAddress ≤ offset) (hend : offset + bytes.size ≤ layout.endAddress) :
    (Store.write offset bytes : Edit σ Unit).Bounded layout size fun _ => True :=
  fun m => .write (by omega) ⟨.of_put hdata hend, fun _ _ => trivial⟩
    fun _ _ => ⟨.refl layout m, fun _ h => nomatch h⟩

end Edit.Bounded

/-- Taking a block. -/
theorem Block.acquire_bounded (regular : layout.Regular) (hsize : layout.endAddress ≤ size) :
    (acquire layout : Edit σ Nat).Bounded layout size layout.IsBlock := by
  intro m
  refine (acquire_ends regular hsize).mono ?_
  rintro r m' (⟨a, rfl, growth, -⟩ | ⟨rfl, -, rfl⟩ | ⟨e, spare, rfl, -, growth, -⟩)
  · refine ⟨.of_growth regular growth, fun b hb => ?_⟩
    obtain rfl := Except.ok.inj hb
    exact regular.isBlock_of_mem (growth.taken_covered a (List.mem_singleton_self a))
  · exact ⟨.refl layout m', fun _ h => nomatch h⟩
  · exact ⟨.of_growth regular growth, fun _ h => nomatch h⟩

/-! ## Chains -/

namespace Chain

variable (regular : layout.Regular) (hsize : layout.endAddress ≤ size)
include regular hsize

theorem link_bounded {a : Nat} (ha : layout.IsBlock a) (b : Nat) :
    (link layout a b : Edit σ Unit).Bounded layout size fun _ => True := by
  have hend := ha.end_le
  have hge := regular.blockSize_ge
  refine .bind (P := fun _ => True) (.ofExcept fun _ _ => trivial) fun block _ => ?_
  exact .write hsize ha.inData.1 (by rw [Bytes.size_ofNumber]; omega)

/-- A step along a chain leads to a block of the data region. -/
theorem nextOrExtend_bounded {a : Nat} (ha : layout.IsBlock a) :
    (nextOrExtend layout a : Edit σ Nat).Bounded layout size layout.IsBlock := by
  refine .bind (.ask fun store target h => isBlock_of_next h) fun target htarget => ?_
  split
  · rename_i hne
    exact .pure (htarget.resolve_left hne)
  · refine .bind (Block.acquire_bounded regular hsize) fun b hb => ?_
    exact .bind (link_bounded regular hsize ha b) fun _ _ => .pure hb

theorem advance_bounded (count : Nat) {a : Nat} (ha : layout.IsBlock a) :
    (advance layout count a : Edit σ Nat).Bounded layout size layout.IsBlock := by
  induction count generalizing a with
  | zero => exact .pure ha
  | succ count ih => exact .bind (nextOrExtend_bounded regular hsize ha) fun b hb => ih hb

/-- Pieces that fit behind the links of their blocks. -/
theorem writePieces_bounded {pieces : List ByteArray} {a inBlock : Nat} (ha : layout.IsBlock a)
    (hfirst : ∀ piece ∈ pieces.head?, inBlock + piece.size ≤ layout.payloadSize)
    (hrest : ∀ piece ∈ pieces.tail, piece.size ≤ layout.payloadSize) :
    (writePieces layout a inBlock pieces : Edit σ Unit).Bounded layout size fun _ => True := by
  have hsum := payloadSize_add regular
  induction pieces generalizing a inBlock with
  | nil => exact .pure trivial
  | cons piece rest ih =>
    have hdata := ha.inData.1
    have hend := ha.end_le
    have hfits := hfirst piece rfl
    have hwrite : (Store.write (a + Layout.linkSize + inBlock) piece : Edit σ Unit).Bounded
        layout size fun _ => True := .write hsize (by omega) (by omega)
    cases rest with
    | nil => exact hwrite
    | cons next rest =>
      rw [writePieces]
      · refine .bind hwrite fun _ _ => ?_
        refine .bind (nextOrExtend_bounded regular hsize ha) fun b hb => ih hb ?_ ?_
        · intro piece' hpiece'
          obtain rfl := Option.some.inj hpiece'
          rw [Nat.zero_add]
          exact hrest next (List.mem_cons_self ..)
        · exact fun piece' hpiece' => hrest piece' (List.mem_cons_of_mem _ hpiece')
      · exact List.cons_ne_nil next rest

/-- A write to a chain, whatever the links in it say. -/
theorem writeRange_bounded {start : Nat} (haligned : start % layout.blockSize = 0)
    (offset : Nat) (data : ByteArray) :
    (writeRange layout start offset data : Edit σ Unit).Bounded layout size fun _ => True := by
  have hmod := Nat.mod_lt offset (payloadSize_pos regular)
  unfold writeRange
  split
  · exact .throw
  rename_i hdata
  split
  · exact .pure trivial
  dsimp only
  refine .bind (advance_bounded regular hsize _ ⟨haligned, not_not.mp hdata⟩) fun a ha => ?_
  refine writePieces_bounded regular hsize ha (fun piece hpiece => ?_)
    fun piece hpiece => size_le_of_tail_pieces hpiece
  have hle := size_le_of_head_pieces hpiece
  omega

end Chain

/-! ## Directories -/

namespace Directory

variable (regular : layout.Regular) (hsize : layout.endAddress ≤ size)
include regular hsize

omit regular in
theorem updateNode_bounded {node : Node} (located : node.Located layout) (newSize : UInt32)
    (now : UInt64) :
    (updateNode node newSize now : Edit σ Unit).Bounded layout size fun _ => True := by
  unfold updateNode
  split
  · rename_i x hx
    obtain ⟨hdata, hend⟩ := located.inside x hx
    rw [Record.headerSize] at hend
    refine .bind (.write hsize ?_ ?_) fun _ _ => .write hsize ?_ ?_
    all_goals
      simp only [Bytes.size_ofNumber, Record.sizeOffset, Record.mtimeOffset]
      omega
  · exact .pure trivial

/-- The place for a record is in the data region as a whole. -/
theorem placeFor_bounded {tail : Cursor} (htail : layout.IsBlock tail.block) {length : Nat}
    (hlength : length ≤ Record.headerSize + Record.maxNameSize) :
    (placeFor layout tail length : Edit σ Nat).Bounded layout size fun place =>
      layout.dataAddress ≤ place ∧ place + length ≤ layout.endAddress := by
  unfold placeFor
  split
  · have hdata := htail.inData.1
    have hend := htail.end_le
    exact .pure ⟨by omega, by omega⟩
  · refine .bind (Block.acquire_bounded regular hsize) fun added hadded => ?_
    have hdata := hadded.inData.1
    have hend := hadded.end_le
    have hfits := regular.record_le hlength
    refine .bind (Chain.link_bounded regular hsize htail added) fun _ _ => .pure ?_
    exact ⟨by omega, by omega⟩

theorem append_bounded {tail : Cursor} (htail : layout.IsBlock tail.block) (name : String)
    (kind : Kind) (now : UInt64) :
    (append layout tail name kind now : Edit σ Node).Bounded layout size fun _ => True := by
  refine .bind (Block.acquire_bounded regular hsize) fun address _ => ?_
  dsimp only
  refine .bind (.ofExcept fun bytes hencode => hencode) fun bytes hencode => ?_
  have hencodable := Record.encodable_of_encode hencode
  have hbytes := Record.size_of_encode hencodable hencode
  refine .bind (placeFor_bounded regular hsize htail hencodable.encodedSize_le)
    fun place ⟨hdata, hend⟩ => ?_
  exact .bind (.write hsize hdata (hbytes ▸ hend)) fun _ _ => .pure trivial

/-- A new entry, whatever the directory holds, as long as it starts in the data region. -/
theorem create_bounded {parent : Node} (located : parent.Located layout)
    (hinData : parent.isDirectory → layout.InData parent.record.address) (name : String)
    (kind : Kind) (now : UInt64) :
    (create layout parent name kind now : Edit σ Node).Bounded layout size fun _ => True := by
  refine .bind (.ofExcept fun _ hcheck => (Volume.of_checkNew hcheck).2) fun _ hdirectory => ?_
  have hblock : layout.IsBlock parent.record.address := ⟨located.aligned, hinData hdirectory⟩
  refine .bind (.ask fun store tail htail => isBlock_of_tailFor hblock htail) fun tail htail => ?_
  refine .bind (P := fun _ => True) (.ofExcept fun _ _ => trivial) fun newSize _ => ?_
  exact .bind (updateNode_bounded hsize located newSize now) fun _ _ =>
    append_bounded regular hsize htail name kind now

end Directory

/-! ## Calls -/

theorem Node.located_root (regular : layout.Regular) : (Node.root layout).Located layout :=
  ⟨regular.isBlock_data.aligned, fun _ hx => nomatch hx⟩

namespace Volume

section Descend

omit [Faithful σ]

variable {store : σ} {top node child : Node} {name : String} {rest names : List String}

/-- A name leads on in a directory that has it. -/
theorem descend_cons (hdirectory : top.isDirectory)
    (hfind : Directory.find layout store top.record.address name = .ok (some child)) :
    descend layout store top (name :: rest) = descend layout store child rest := by
  rw [descend, hdirectory, hfind]
  rfl

/-- Nowhere else does a name lead on. -/
theorem of_descend_cons (h : descend layout store top (name :: rest) = .ok (some node)) :
    top.isDirectory ∧ ∃ child,
      Directory.find layout store top.record.address name = .ok (some child) ∧
      descend layout store child rest = .ok (some node) := by
  rw [descend] at h
  split at h
  · cases h
  rename_i hkind
  rcases hfind : Directory.find layout store top.record.address name with e | _ | child
  · rw [hfind] at h
    cases h
  · rw [hfind] at h
    cases h
  · rw [hfind] at h
    exact ⟨by simpa using hkind, child, rfl, h⟩

/-- Every directory that names lead through from a node, the last one included, starts in the data
region. -/
def StartInData (layout : Layout) (store : σ) (top : Node) (names : List String) : Prop :=
  ∀ front node, front <+: names → descend layout store top front = .ok (some node) →
    node.isDirectory → layout.InData node.record.address

/-- They do on a volume in order, whatever the names are. -/
theorem startInData_of_mapped [Faithful σ] (regular : layout.Regular)
    (hsize : layout.endAddress ≤ Store.size store) {branches : Branches}
    (mapped : Mapped layout (content store) branches) (names : List String) :
    StartInData layout store (Node.root layout) names := by
  intro front node _ hnode _
  obtain ⟨chain, hroot⟩ := mapped.root
  rw [descend_eq regular hsize mapped hroot] at hnode
  obtain ⟨branch, hbranch, rfl⟩ := Option.map_eq_some_iff.mp (Except.ok.inj hnode)
  have hfirst := List.mem_of_getElem? (mapped.first hbranch)
  exact regular.inData_of_mem ((mapped.intact hbranch).covered hfirst)

/-- What names lead to is located if the directories on the way start in the data region. -/
theorem descend_located (located : top.Located layout)
    (hway : StartInData layout store top names)
    (h : descend layout store top names = .ok (some node)) : node.Located layout := by
  induction names generalizing top with
  | nil =>
    obtain rfl := Option.some.inj (Except.ok.inj h)
    exact located
  | cons name rest ih =>
    obtain ⟨hdirectory, child, hfind, hrest⟩ := of_descend_cons h
    have hinData := hway [] top (List.nil_prefix) rfl hdirectory
    have hchild := Directory.find_located ⟨located.aligned, hinData⟩ hfind
    refine ih hchild (fun front node hfront hnode => ?_) hrest
    refine hway (name :: front) node ((List.prefix_cons_inj name).mpr hfront) ?_
    rw [descend_cons hdirectory hfind, hnode]

/-- A path that is resolved leads to the node. -/
theorem scan_of_resolve {path : String} (h : resolve layout store path = .ok node) :
    scan layout store path = .ok (some node) := by
  rcases hscan : scan layout store path with e | _ | found
  · rw [resolve, hscan] at h
    cases h
  · rw [resolve, hscan] at h
    cases h
  · rw [resolve, hscan] at h
    obtain rfl := Except.ok.inj h
    rfl

theorem resolve_located (regular : layout.Regular) {path : String}
    (hway : StartInData layout store (Node.root layout) (Path.components path))
    (h : resolve layout store path = .ok node) :
    node.Located layout ∧ (node.isDirectory → layout.InData node.record.address) := by
  have hscan := scan_of_resolve h
  exact ⟨descend_located (Node.located_root regular) hway hscan,
    hway _ node (List.prefix_refl _) hscan⟩

end Descend

/-- A store afterwards has the same size, and differs only where changes write. -/
def ConfinedTo (layout : Layout) (store after : σ) : Prop :=
  Store.size after = Store.size store ∧ Confined layout (content store) (content after)

namespace ConfinedTo

variable {α β : Type} {store after : σ}

theorem refl (layout : Layout) (store : σ) : ConfinedTo layout store store :=
  ⟨rfl, .refl layout _⟩

/-- An edit that goes on from the answer to a question. -/
theorem ask_bind {question : σ → Except Error α} {second : α → Edit σ β}
    (h : ∀ a, question store = .ok a →
      (second a).Bounded layout (Store.size store) fun _ => True) :
    ConfinedTo layout store ((Edit.ask question >>= second).outcome store).2 := by
  rw [Edit.outcome_bind, Edit.outcome_ask]
  rcases hanswer : question store with e | a
  · exact .refl layout store
  · obtain ⟨hsize, hconfined, -⟩ := (h a hanswer (content store)).outcome rfl rfl
    exact ⟨hsize, hconfined⟩

theorem map {f : α → β} {act : Edit σ α} (h : ConfinedTo layout store (act.outcome store).2) :
    ConfinedTo layout store ((f <$> act).outcome store).2 := by
  rwa [Edit.outcome_map]

end ConfinedTo

section Calls

variable {store : σ} (regular : layout.Regular) (hsize : layout.endAddress ≤ Store.size store)
  (now : UInt64)
include regular hsize

theorem write_confined {path : String}
    (hway : StartInData layout store (Node.root layout) (Path.components path)) (offset : Nat)
    (data : ByteArray) :
    ConfinedTo layout store ((write layout now path offset data).outcome store).2 := by
  refine .ask_bind fun node hnode => ?_
  have located := (resolve_located regular hway hnode).1
  split
  · exact .throw
  split
  · exact .pure trivial
  refine .bind (P := fun _ => True) (.ofExcept fun _ _ => trivial) fun newSize _ => ?_
  refine .bind (Directory.updateNode_bounded hsize located newSize now) fun _ _ => ?_
  refine .bind (Chain.writeRange_bounded regular hsize located.aligned offset data) fun _ _ => ?_
  exact .pure trivial

theorem create_confined {parent : String}
    (hway : StartInData layout store (Node.root layout) (Path.components parent)) (name : String)
    (kind : Kind) :
    ConfinedTo layout store ((create layout now parent name kind).outcome store).2 := by
  refine .ask_bind fun node hnode => ?_
  obtain ⟨located, hinData⟩ := resolve_located regular hway hnode
  exact Directory.create_bounded regular hsize located hinData name kind now

theorem createAt_confined {path : String}
    (hway : StartInData layout store (Node.root layout) (parts path).1) (kind : Kind) :
    ConfinedTo layout store ((createAt layout now path kind).outcome store).2 := by
  rw [createAt, Edit.ofExcept, Edit.outcome_bind, Edit.outcome_ask]
  rcases hsplit : Path.splitLast path with e | ⟨parent, name⟩
  · exact .refl layout store
  · rw [parts, hsplit] at hway
    exact create_confined regular hsize now hway name kind

end Calls

/-- Whatever a volume that opens holds, a call changes no byte but those of the bitmap, of the
counter and of the data region, if all directories that its path leads through start in the data
region. -/
theorem changes_confined {store : σ} {blockSize : UInt32} (hload : load store blockSize = .ok layout)
    (now : UInt64) (call : Call)
    (hway : StartInData layout store (Node.root layout) call.target) :
    ConfinedTo layout store ((call.run layout now).outcome store).2 := by
  obtain ⟨regular, hsize⟩ := regular_of_load hload
  have hask : ∀ {α : Type} (answer : α → Reply) (question : σ → Except Error α),
      ConfinedTo layout store ((answer <$> Edit.ask question).outcome store).2 := by
    intro α answer question
    rw [Edit.outcome_map, Edit.outcome_ask]
    exact .refl layout store
  cases call with
  | scan path => exact hask ..
  | lookup path => exact hask ..
  | list path => exact hask ..
  | read path offset length => exact hask ..
  | usage => exact hask ..
  | write path offset data => exact .map (write_confined regular hsize now hway offset data)
  | create parent name kind => exact .map (create_confined regular hsize now hway name kind)
  | makeDirectory path => exact .map (createAt_confined regular hsize now hway .directory)
  | createFile path => exact .map (createAt_confined regular hsize now hway .file)

/-- A file is created in a directory below the root, which starts in the data region. -/
theorem changes_confined_on_blank :
    ∃ volume store : Memory, format 512 (blank 4195840) = .ok smallest volume ∧
      store = (((Call.makeDirectory "/d").run smallest 5).outcome volume).2 ∧
      load store 512 = .ok smallest ∧
      (∃ node, descend smallest store (Node.root smallest) (Call.createFile "/d/x").target
        = .ok (some node) ∧ node.isDirectory ∧ node.recordAddress ≠ none) ∧
      StartInData smallest store (Node.root smallest) (Call.createFile "/d/x").target ∧
      ConfinedTo smallest store (((Call.createFile "/d/x").run smallest 6).outcome store).2 := by
  obtain ⟨volume, hformat⟩ := format_blank
  have formatted := formatted_of_format hformat
  obtain ⟨branches, step, sound⟩ := Call.outcome_step formatted.sound 5 (.makeDirectory "/d")
  obtain ⟨b, place, rfl, -⟩ := step.of_first_creation formatted
    (show (Call.makeDirectory "/d").creation = some ("/", "d", .directory) by decide +kernel)
    (by decide +kernel) (by decide +kernel)
  obtain ⟨regular, fits, sealed, -⟩ := sound.toTallied
  have htarget : (Call.createFile "/d/x").target = ["d"] := by decide +kernel
  have hload := sealed.load_eq regular fits
  have hway := startInData_of_mapped regular fits sound.mapped (Call.createFile "/d/x").target
  refine ⟨volume, _, hformat, rfl, hload, ?_, hway, changes_confined hload 6 _ hway⟩
  obtain ⟨chain, hroot⟩ := sound.mapped.root
  rw [htarget, descend_eq regular fits sound.mapped hroot, List.nil_append, Function.update_self]
  exact ⟨_, rfl, rfl, nofun⟩

/-! ## A directory that starts in the reserved area -/

/-- The end of a directory whose first block is all zero is the start of that block, wherever the
block may be. -/
theorem tailFor_zero {store : σ} {a : Nat} (regular : layout.Regular)
    (hend : a + layout.blockSize ≤ Store.size store)
    (hzero : ∀ x, layout.InBlock a x → content store x = 0) (name : String) :
    Directory.tailFor layout store a name
      = .ok ⟨a, Cursor.firstRecord, 0, layout.bitmapBits, true⟩ := by
  have hge := regular.blockSize_ge
  have hrecords : ∀ x, a + Cursor.firstRecord ≤ x → layout.InBlock a x → content store x = 0 :=
    fun x _ hx => hzero x hx
  obtain ⟨hnodes, hvacant⟩ := Directory.nodesFrom_zero hrecords
  have hlive : Cursor.firstLive layout.blockSize ((content store).window a layout.blockSize)
      Cursor.firstRecord = (Cursor.firstRecord, none) := by
    rcases Cursor.firstLive_spec layout.blockSize ((content store).window a layout.blockSize) a
      Cursor.firstRecord with ⟨hlive, -⟩ | ⟨found, record, -, hcons, -⟩
    · rw [hlive]
      exact congrArg (·, none) hvacant
    · rw [Directory.nodesFrom, hcons] at hnodes
      cases hnodes
  have hnext : Chain.next layout store a = .ok 0 := by
    have hnumber : Store.readNumber 4 store a = .ok 0 := by
      rw [readNumber_eq (by omega), Content.number_zero fun i hi => hzero _ ⟨by omega, by omega⟩]
    rw [Chain.next, hnumber]
    simp [bind, Except.bind, Layout.blockAddress]
  have hstep : (Cursor.start layout a).next layout store
      = (⟨a, Cursor.firstRecord, 0, layout.bitmapBits, true⟩, none) := by
    rw [Cursor.next, if_neg (by simp [Cursor.start]), Cursor.start, Cursor.nextFrom,
      Store.read_eq hend]
    simp only [hlive, hnext, if_true]
  have hseek : (Cursor.start layout a).seek layout store (·.record.name = name)
      = .ok (⟨a, Cursor.firstRecord, 0, layout.bitmapBits, true⟩, none) := by
    rw [Cursor.seek]
    split
    all_goals simp_all
  rw [Directory.tailFor, hseek]
  rfl

/-- Rewriting a record changes nothing in front of the data region. -/
theorem updateNode_front (hsize : layout.endAddress ≤ size) {node : Node}
    (located : node.Located layout) (newSize : UInt32) (now : UInt64) :
    (Directory.updateNode node newSize now : Edit σ Unit).Ends size m fun r m' =>
      r = .ok () ∧ (∀ x < layout.dataAddress, m' x = m x) ∨ ∃ e, r = .error e ∧ Fault σ e := by
  unfold Directory.updateNode
  split
  · rename_i x hx
    obtain ⟨hdata, hend⟩ := located.inside x hx
    rw [Record.headerSize] at hend
    have hsizeOffset : Record.sizeOffset = 5 := rfl
    have hmtimeOffset : Record.mtimeOffset = 9 := rfl
    refine .write_bind (by rw [Bytes.size_ofNumber]; omega) (fun e he => .inr ⟨e, rfl, he⟩) ?_
    refine .write (by rw [Bytes.size_ofNumber]; omega) (.inl ⟨rfl, fun y hy => ?_⟩)
      fun e he => .inr ⟨e, rfl, he⟩
    rw [Content.put_outside _ (.inl (by omega)), Content.put_outside _ (.inl (by omega))]
  · exact .pure (.inl ⟨rfl, fun _ _ => rfl⟩)

/-- The record of a new entry is written behind the end of its directory, wherever that is. -/
theorem append_at (regular : layout.Regular) (hsize : layout.endAddress ≤ size)
    (hfree : Bitmap.marked layout m ≠ layout.covered) {tail : Cursor} {name : String}
    (hvalid : Directory.validateName name = .ok ())
    (hroom : tail.offset + (Record.headerSize + name.utf8ByteSize) ≤ layout.blockSize)
    (hend : tail.block + layout.blockSize ≤ layout.endAddress) (kind : Kind) (now : UInt64) :
    (Directory.append layout tail name kind now : Edit σ Node).Ends size m fun r m' =>
      (∃ node, r = .ok node) ∧ m' (tail.block + tail.offset) = kind.code ∨
      ∃ e, r = .error e ∧ Fault σ e := by
  refine .bind (Block.acquire_ends regular hsize) ?_ ?_
  · rintro e m' (⟨a, hr, -⟩ | ⟨hr, hfull, -⟩ | ⟨e', spare, hr, he, -⟩)
    · cases hr
    · exact absurd hfull hfree
    · cases hr
      exact .inr ⟨e, rfl, he⟩
  rintro a m' (⟨a', hr, growth, -⟩ | ⟨hr, -⟩ | ⟨e, spare, hr, -⟩)
  · cases hr
    have hrecord : (⟨kind, a, 0, now, name⟩ : Record).Encodable layout.blockSize :=
      Directory.encodable_of_valid regular hvalid
        (growth.taken_covered a (List.mem_singleton_self a))
    refine .ofExcept_bind (Record.encode_eq hrecord) ?_
    have hbytes := Record.size_of_encode hrecord (Record.encode_eq hrecord)
    rw [Record.encodedSize] at hbytes
    have hplace : Directory.placeFor (σ := σ) layout tail
        (⟨kind, a, 0, now, name⟩ : Record).encodedSize = pure (tail.block + tail.offset) :=
      if_pos hroom
    rw [hplace]
    refine .write_bind (by rw [hbytes]; dsimp only; omega) (fun e he => .inr ⟨e, rfl, he⟩)
      (.pure (.inl ⟨⟨_, rfl⟩, ?_⟩))
    rw [Content.put_inside _ (Nat.le_refl _), Nat.sub_self, Bytes.get_append_left,
      Record.get_header_kind]
    · rw [Record.size_header, Record.headerSize]
      omega
    · rw [hbytes, Record.headerSize]
      omega
  · cases hr
  · cases hr

/-- A new entry of a directory that starts in the reserved area, at a block that is all zero, has
its record there. -/
theorem create_in_reserved (regular : layout.Regular) (hsize : layout.endAddress ≤ size)
    (hfree : Bitmap.marked layout m ≠ layout.covered) {parent : Node}
    (located : parent.Located layout)
    (hend : parent.record.address + layout.blockSize ≤ layout.superblockAddress)
    (hzero : ∀ x, layout.InBlock parent.record.address x → m x = 0) {name : String}
    (hcheck : Directory.checkNew parent name = .ok ()) (kind : Kind) (now : UInt64) :
    (Directory.create layout parent name kind now : Edit σ Node).Ends size m fun r m' =>
      (∃ node, r = .ok node) ∧ m' (parent.record.address + Cursor.firstRecord) = kind.code ∨
      ∃ e, r = .error e ∧ Fault σ e := by
  have hspare := regular.spare_end
  have hbitmap := regular.bitmap_lt_data
  have hdata := regular.data_le_end
  have hge := regular.blockSize_ge
  have hvalid := (of_checkNew hcheck).1
  have hrecord : (⟨kind, layout.dataAddress, 0, now, name⟩ : Record).Encodable
      layout.blockSize := Directory.encodable_of_valid regular hvalid regular.data_mem_covered
  have hname : name.utf8ByteSize ≤ 255 := hrecord.name_le
  have hheader : Record.headerSize = 18 := rfl
  refine .ofExcept_bind hcheck ?_
  refine .ask_bind (a := ⟨parent.record.address, Cursor.firstRecord, 0, layout.bitmapBits, true⟩)
    ?_ ?_
  · rintro store rfl rfl
    exact tailFor_zero regular (by omega) hzero name
  have hgrown : 0 + (Record.headerSize + name.utf8ByteSize) < UInt32.size := by
    rw [UInt32.size]
    omega
  refine .ofExcept_bind (if_pos hgrown) ?_
  refine .bind (updateNode_front hsize located _ now) ?_ ?_
  · rintro e m' (⟨hr, -⟩ | ⟨e', hr, he⟩)
    · cases hr
    · cases hr
      exact .inr ⟨e, rfl, he⟩
  rintro ⟨⟩ m' (⟨-, hfront⟩ | ⟨e, hr, -⟩)
  · have hmarked : Bitmap.marked layout m' = Bitmap.marked layout m :=
      Bitmap.marked_congr regular fun x _ hx => hfront x hx
    have hfirst : Cursor.firstRecord = 4 := rfl
    exact append_at regular hsize (hmarked ▸ hfree) hvalid (by dsimp only; omega)
      (by dsimp only; omega) kind now
  · cases hr

/-- The record of a directory that starts at the second block of the reserved area. -/
def strayRecord : Record :=
  ⟨.directory, 512, 0, 5, "d"⟩

/-- A volume with that record as the only one of its root. -/
def stray (m : Content) : Content :=
  ((m.put 512 (Bytes.zeros 512)).put 2098688 (Bytes.zeros 512)).put (2098688 + 4)
    (strayRecord.header 512 ++ strayRecord.name.toUTF8)

theorem strayRecord_encodable : strayRecord.Encodable smallest.blockSize := by
  constructor <;> decide

theorem size_strayRecord :
    (strayRecord.header 512 ++ strayRecord.name.toUTF8).size = 19 := by
  rw [ByteArray.size_append, Record.size_header]
  rfl

/-- Outside of the blocks of the two directories nothing was changed. -/
theorem stray_outside (m : Content) {x : Nat} (h : x < 512 ∨ 1024 ≤ x)
    (h' : x < 2098688 ∨ 2099200 ≤ x) : stray m x = m x := by
  rw [stray, Content.put_outside _ (by rw [size_strayRecord]; omega),
    Content.put_outside _ (by rw [Bytes.size_zeros]; omega),
    Content.put_outside _ (by rw [Bytes.size_zeros]; omega)]

theorem stray_zero (m : Content) {x : Nat} (h : 512 ≤ x) (h' : x < 1024) : stray m x = 0 := by
  rw [stray, Content.put_outside _ (by rw [size_strayRecord]; omega),
    Content.put_outside _ (by rw [Bytes.size_zeros]; omega),
    Content.put_inside _ h (by rw [Bytes.size_zeros]; omega), Bytes.get_zeros]

theorem stray_link (m : Content) {i : Nat} (h : i < 4) : stray m (2098688 + i) = 0 := by
  rw [stray, Content.put_outside _ (by omega),
    Content.put_inside _ (by omega) (by rw [Bytes.size_zeros]; omega), Bytes.get_zeros]

/-- The root of the volume has the one entry. -/
theorem entries_stray (m : Content) :
    Directory.entries smallest (stray m) [smallest.dataAddress]
      = [⟨strayRecord, some (2098688 + 4)⟩] := by
  have hzero : ∀ x, 2098688 + Cursor.firstRecord ≤ x → smallest.InBlock 2098688 x →
      (m.put 512 (Bytes.zeros 512)).put 2098688 (Bytes.zeros 512) x = 0 := by
    intro x _ hx
    rw [Content.put_inside _ hx.1 (by rw [Bytes.size_zeros]; exact hx.2), Bytes.get_zeros]
  obtain ⟨hnodes, hvacant⟩ := Directory.nodesFrom_zero hzero
  have hput := (Directory.nodesFrom_put strayRecord_encodable (by decide)
    (Record.encode_eq strayRecord_encodable)
    (fun x hle hx => hzero x (by rwa [hvacant] at hle) hx) (by rw [hvacant]; decide)).1
  rw [hnodes, hvacant, List.nil_append] at hput
  rw [Directory.entries_cons, Directory.entries_nil, List.append_nil]
  exact hput

theorem marked_stray (hformatted : Formatted smallest 512 size m) :
    Bitmap.marked smallest (stray m) = {smallest.dataAddress} := by
  rw [← hformatted.marked_eq]
  refine Bitmap.marked_congr hformatted.regular fun x hx hlt =>
    stray_outside m (.inr ?_) (.inl hlt)
  exact Nat.le_trans (by decide) hx

theorem intact_stray (hformatted : Formatted smallest 512 size m) :
    Chain.Intact smallest (stray m) [smallest.dataAddress] := by
  refine ⟨by simp, fun k a ha => ?_, by simp, by simp [marked_stray hformatted]⟩
  obtain ⟨rfl, rfl⟩ : k = 0 ∧ a = smallest.dataAddress := by
    cases k with
    | zero => exact ⟨rfl, (Option.some.inj ha).symm⟩
    | succ k => cases ha
  exact Chain.target_zero fun i hi => stray_link m hi

/-- Such a volume can be opened: its superblock is as the format wrote it. -/
theorem load_stray {volume : Memory}
    (hformatted : Formatted smallest 512 (Store.size volume) m)
    (hcontent : content volume = stray m) : load volume 512 = .ok smallest := by
  refine Sealed.load_eq (hformatted.sealed.congr hformatted.regular fun x hx hlt => ?_)
    hformatted.regular hformatted.fits
  rw [hcontent]
  exact stray_outside m (.inr (Nat.le_trans (by decide) hx)) (.inl (Nat.lt_trans hlt (by decide)))

theorem resolve_stray {volume : Memory}
    (hformatted : Formatted smallest 512 (Store.size volume) m)
    (hcontent : content volume = stray m) :
    resolve smallest volume "/d" = .ok ⟨strayRecord, some (2098688 + 4)⟩ := by
  have hfind : Directory.find smallest volume smallest.dataAddress "d"
      = .ok (some ⟨strayRecord, some (2098688 + 4)⟩) := by
    rw [Directory.find_eq hformatted.regular hformatted.fits
      (hcontent ▸ intact_stray hformatted) rfl, hcontent, entries_stray]
    rfl
  have hcomponents : Path.components "/d" = ["d"] := rfl
  rw [resolve, scan, hcomponents, descend_cons rfl hfind]
  rfl

/-- A store in memory can be overwritten anywhere. -/
theorem exists_put {store : Memory} {offset : Nat} {bytes : ByteArray}
    (hfits : offset + bytes.size ≤ Store.size store) :
    ∃ after : Memory, Store.size after = Store.size store ∧
      content after = (content store).put offset bytes := by
  have hends : (Store.write offset bytes : Edit Memory Unit).Ends (Store.size store)
      (content store) fun _ m' => m' = (content store).put offset bytes :=
    .write hfits rfl fun e he => absurd he (Reliable.not_fault e)
  exact ⟨_, hends.outcome rfl rfl⟩

theorem exists_stray :
    ∃ (volume : Memory) (m : Content),
      Formatted smallest 512 (Store.size volume) m ∧ content volume = stray m := by
  obtain ⟨formatted, hformat⟩ := format_blank
  obtain ⟨hsize, hformatted⟩ := formatted_of_ok hformat
  rw [size_blank] at hsize hformatted
  obtain ⟨first, hfirst, hcontent₁⟩ :=
    exists_put (show 512 + (Bytes.zeros 512).size ≤ Store.size formatted by
      rw [Bytes.size_zeros, hsize]; decide)
  obtain ⟨second, hsecond, hcontent₂⟩ :=
    exists_put (show 2098688 + (Bytes.zeros 512).size ≤ Store.size first by
      rw [Bytes.size_zeros, hfirst, hsize]; decide)
  obtain ⟨volume, hvolume, hcontent⟩ :=
    exists_put (show 2098688 + 4 + (strayRecord.header 512 ++ strayRecord.name.toUTF8).size
        ≤ Store.size second by
      rw [size_strayRecord, hsecond, hfirst, hsize]; decide)
  rw [hsecond, hfirst, hsize] at hvolume
  rw [hcontent₂, hcontent₁, ← stray] at hcontent
  exact ⟨volume, content formatted, hvolume ▸ hformatted, hcontent⟩

/-- A call that changes a byte of the reserved area: its directory starts there. -/
theorem changes_not_confined :
    ∃ volume : Memory, load volume 512 = .ok smallest ∧
      ¬ ConfinedTo smallest volume
        (((Call.create "/d" "x" .file).run smallest 7).outcome volume).2 := by
  obtain ⟨volume, m, hformatted, hcontent⟩ := exists_stray
  refine ⟨volume, load_stray hformatted hcontent, fun hconfined => ?_⟩
  rw [Call.run, Edit.outcome_map, create, Edit.outcome_bind, Edit.outcome_ask,
    resolve_stray hformatted hcontent] at hconfined
  have hzero : ∀ x, smallest.InBlock 512 x → content volume x = 0 := fun x hx => by
    rw [hcontent]
    exact stray_zero m hx.1 hx.2
  have hfree : Bitmap.marked smallest (content volume) ≠ smallest.covered := by
    rw [hcontent, marked_stray hformatted]
    intro hall
    have hcard := hformatted.regular.card_covered
    rw [← hall] at hcard
    exact absurd hcard (by decide)
  have located : (⟨strayRecord, some (2098688 + 4)⟩ : Node).Located smallest := by
    refine ⟨by decide, ?_⟩
    rintro x ⟨⟩
    decide
  have hends : (Directory.create smallest ⟨strayRecord, some (2098688 + 4)⟩ "x" .file 7 :
      Edit Memory Node).Ends (Store.size volume) (content volume) _ :=
    create_in_reserved hformatted.regular hformatted.fits hfree located (by decide) hzero rfl
      .file 7
  rcases (hends.outcome rfl rfl).2 with ⟨-, hwritten⟩ | ⟨e, -, he⟩
  · -- the kind of the new entry stands at 516, where there was a zero
    have hkept := hconfined.2 (512 + 4) (by unfold Layout.Writable Layout.InData; decide)
    have hbefore := hzero (512 + 4) ⟨by decide, by decide⟩
    exact absurd (hwritten.symm.trans (hkept.trans hbefore)) (by decide)
  · exact Reliable.not_fault e he

end Volume

end ChainFs
