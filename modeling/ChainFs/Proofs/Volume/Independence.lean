import ChainFs.Proofs.Blind
import ChainFs.Proofs.Volume.Provenance

/-!
# What was there before

Formatting clears the superblock, the bitmap and the first block of the root, and leaves all other
blocks as they are. Whatever they hold, it is never seen.

* `Agree.mapped` — contents that agree hold the same branches;
* `Chain.writeRange_blind`, `Directory.append_blind` — writes and new entries on stores that agree;
* `Volume.Call.run_blind`, `Volume.Call.runAll_eq` — so calls on such stores have the same answers;
* `Volume.runAll_independent` — calls on two new volumes have the same answers, whatever the stores
  held before they were formatted, and read only what was written since.

Two runs go side by side here. They read from the superblock, the bitmap and blocks in use, and a
block comes into use by being cleared; so the contents agree in more and more blocks, while they may
go on being different in all the others.
-/

namespace ChainFs

open Store Bitmap

variable {layout : Layout} {m m' n : Content}

/-! ## Contents that agree -/

namespace Agree

variable (agree : Agree layout m n)
include agree

/-- Chains in use have the same links. -/
theorem intact (regular : layout.Regular) {chain : List Nat} (h : Chain.Intact layout m chain) :
    Chain.Intact layout n chain := by
  have hge := regular.blockSize_ge
  refine h.congr (fun a ha => Chain.target_congr fun i hi => ?_) fun a ha => ?_
  · exact agree.blocks a (h.marked a ha) _ ⟨by omega, by omega⟩
  · rw [agree.marked_eq]
    exact h.marked a ha

/-- The entries of blocks in use are the same. -/
theorem entries_eq {chain : List Nat} (h : ∀ a ∈ chain, a ∈ marked layout m) :
    Directory.entries layout n chain = Directory.entries layout m chain :=
  Directory.entries_congr fun a ha x _ hx => agree.blocks a (h a ha) x hx

/-- And so is the free place behind them. -/
theorem vacantIn_eq {a : Nat} (h : a ∈ marked layout m) :
    Directory.vacantIn layout n a Cursor.firstRecord
      = Directory.vacantIn layout m a Cursor.firstRecord :=
  (Directory.nodesFrom_congr fun x _ hx => agree.blocks a h x hx).2

/-- The payload of blocks in use is the same. -/
theorem payload_eq (regular : layout.Regular) {chain : List Nat}
    (h : ∀ a ∈ chain, a ∈ marked layout m) :
    Chain.payload layout n chain = Chain.payload layout m chain :=
  Chain.payload_congr regular fun a ha x _ hx => agree.blocks a (h a ha) x hx

/-- The same branches are there. -/
theorem mapped (regular : layout.Regular) {branches : Volume.Branches}
    (h : Volume.Mapped layout m branches) : Volume.Mapped layout n branches where
  root := h.root
  intact hbranch := agree.intact regular (h.intact hbranch)
  first := h.first
  apart := h.apart
  child names name := by
    rw [h.child names name]
    rcases hbranch : branches names with _ | branch
    · rfl
    · rw [Option.bind_some, Option.bind_some, Volume.Branch.children, Volume.Branch.children,
        agree.entries_eq (h.intact hbranch).marked]
  orderly {names branch} hbranch hkind := by
    have hmarked := (h.intact hbranch).marked
    obtain ⟨hnodup, hvalid, hzero⟩ := h.orderly hbranch hkind
    rw [← agree.entries_eq hmarked] at hnodup hvalid
    refine ⟨hnodup, hvalid, fun last hlast x hle hx => ?_⟩
    have hmem := hmarked last (List.mem_of_getLast? hlast)
    rw [agree.vacantIn_eq hmem] at hle
    rw [agree.blocks last hmem x hx]
    exact hzero last hlast x hle hx
  zero hbranch hkind := by
    rw [agree.payload_eq regular (h.intact hbranch).marked]
    exact h.zero hbranch hkind

end Agree

variable {σ : Type} [Store σ] [Reliable σ] {size : Nat}

/-! ## Chains -/

namespace Chain

variable (regular : layout.Regular) (hsize : layout.endAddress ≤ size)
include regular hsize

/-- A link set in a block in use. -/
theorem link_blind {a b : Nat} (ha : a ∈ marked layout m) (hb : b ∈ layout.covered) :
    (link layout a b : Edit σ Unit).Blind layout size m fun _ _ => True := by
  have hge := regular.blockSize_ge
  refine .ofExcept_bind (regular.blockNumber_of_mem hb) (.mono (.write regular hsize ha
    (Nat.le_refl a) ?_) fun _ _ _ => trivial)
  rw [Bytes.size_ofNumber]
  omega

/-- A step along a chain, with a new block at its end. -/
theorem nextOrExtend_blind {chain : List Nat} (intact : Intact layout m chain) {k a : Nat}
    (ha : chain[k]? = some a) :
    (nextOrExtend layout a : Edit σ Nat).Blind layout size m fun b m' =>
      ∃ chain', Intact layout m' chain' ∧ chain'[k + 1]? = some b := by
  have hstep : (nextOrExtend layout a : Edit σ Nat).Blind layout size m fun _ _ => True := by
    refine .ask_bind (a := (chain[k + 1]?).getD 0) (fun store hstore hagree => ?_) ?_
    · exact (hagree.intact regular intact).next_eq regular (hstore ▸ hsize) ha
    split
    · exact .pure trivial
    · refine .bind (Block.acquire_blind regular hsize) fun b m' hkept hb => ?_
      have hmem := hkept (intact.marked a (List.mem_of_getElem? ha))
      exact .bind (link_blind regular hsize hmem (marked_subset_covered hb)) fun _ _ _ _ =>
        .pure trivial
  refine (hstep.strengthen (nextOrExtend_ends regular hsize intact ha)).mono ?_
  rintro b m' ⟨-, ⟨added, b', hr, hb, written, -⟩ | ⟨hr, -⟩ | ⟨e, hr, -⟩⟩
  · cases hr
    exact ⟨_, written.intact, hb⟩
  · cases hr
  · cases hr

/-- Steps along a chain, which may get new blocks. -/
theorem advance_blind (count : Nat) {chain : List Nat} (intact : Intact layout m chain) {k a : Nat}
    (ha : chain[k]? = some a) :
    (advance layout count a : Edit σ Nat).Blind layout size m fun b m' =>
      ∃ chain', Intact layout m' chain' ∧ chain'[k + count]? = some b := by
  induction count generalizing m chain k a with
  | zero => exact .pure ⟨chain, intact, ha⟩
  | succ count ih =>
    refine .bind (nextOrExtend_blind regular hsize intact ha) fun b m' _ hb => ?_
    obtain ⟨chain', intact', hb⟩ := hb
    rw [← Nat.add_assoc, Nat.add_right_comm]
    exact ih intact' hb

/-- Pieces that fit behind the links of their blocks. -/
theorem writePieces_blind {pieces : List ByteArray} {chain : List Nat}
    (intact : Intact layout m chain) {k a inBlock : Nat} (ha : chain[k]? = some a)
    (hfirst : ∀ piece ∈ pieces.head?, inBlock + piece.size ≤ layout.payloadSize)
    (hrest : ∀ piece ∈ pieces.tail, piece.size ≤ layout.payloadSize) :
    (writePieces layout a inBlock pieces : Edit σ Unit).Blind layout size m fun _ _ => True := by
  have hsum := payloadSize_add regular
  induction pieces generalizing m chain k a inBlock with
  | nil => exact .pure trivial
  | cons piece rest ih =>
    have hmem := intact.marked a (List.mem_of_getElem? ha)
    have hfits := hfirst piece rfl
    have hwrite : (Store.write (a + Layout.linkSize + inBlock) piece : Edit σ Unit).Blind
        layout size m _ := .write regular hsize hmem (by omega) (by omega)
    cases rest with
    | nil => exact hwrite.mono fun _ _ _ => trivial
    | cons next rest =>
      rw [writePieces]
      · refine .bind hwrite fun _ m' _ hm' => ?_
        have intact' := (Written.of_put regular intact inBlock piece ha hfits).intact
        rw [List.append_nil, ← hm'] at intact'
        refine .bind (nextOrExtend_blind regular hsize intact' ha) fun b m'' _ hb => ?_
        obtain ⟨chain'', intact'', hb⟩ := hb
        refine ih intact'' hb ?_ fun piece' hpiece' => hrest piece' (List.mem_cons_of_mem _ hpiece')
        intro piece' hpiece'
        obtain rfl := Option.some.inj hpiece'
        rw [Nat.zero_add]
        exact hrest next (List.mem_cons_self ..)
      · exact List.cons_ne_nil next rest

/-- **A write to a chain** finds the same blocks and leaves the same in them. -/
theorem writeRange_blind {chain : List Nat} (intact : Intact layout m chain) {start : Nat}
    (hstart : chain[0]? = some start) (offset : Nat) (data : ByteArray) :
    (writeRange layout start offset data : Edit σ Unit).Blind layout size m fun _ _ => True := by
  have hmod := Nat.mod_lt offset (payloadSize_pos regular)
  unfold writeRange
  split
  · exact .throw
  split
  · exact .pure trivial
  dsimp only
  refine .bind (advance_blind regular hsize _ intact hstart) fun a m' _ ha => ?_
  obtain ⟨chain', intact', ha⟩ := ha
  refine writePieces_blind regular hsize intact' ha (fun piece hpiece => ?_)
    fun piece hpiece => size_le_of_tail_pieces hpiece
  have hle := size_le_of_head_pieces hpiece
  omega

end Chain

/-! ## Directories -/

namespace Directory

variable (regular : layout.Regular) (hsize : layout.endAddress ≤ size)
include regular hsize

/-- The place for a record is in a block that is in use. -/
theorem placeFor_blind {tail : Cursor} (htail : tail.block ∈ marked layout m) {length : Nat}
    (hlength : length ≤ Record.headerSize + Record.maxNameSize) :
    (placeFor layout tail length : Edit σ Nat).Blind layout size m fun place m' =>
      ∃ a ∈ marked layout m', a ≤ place ∧ place + length ≤ a + layout.blockSize := by
  unfold placeFor
  split
  · exact .pure ⟨tail.block, htail, by omega, by omega⟩
  · refine .bind (Block.acquire_blind regular hsize) fun added m' hkept hadded => ?_
    have hcovered := marked_subset_covered hadded
    refine .bind ((Chain.link_blind regular hsize (hkept htail) hcovered).strengthen
      (Chain.link_ends regular hsize (marked_subset_covered (hkept htail)) hcovered))
      fun _ m'' hkept' _ => .pure ⟨added, hkept' hadded, ?_⟩
    have hfits := regular.record_le hlength
    omega

/-- **A new entry** behind the end of a directory. -/
theorem append_blind {tail : Cursor} (htail : tail.block ∈ marked layout m) (name : String)
    (kind : Kind) (now : UInt64) :
    (append layout tail name kind now : Edit σ Node).Blind layout size m fun _ _ => True := by
  refine .bind (Block.acquire_blind regular hsize) fun address m' hkept _ => ?_
  dsimp only
  refine .bind (P := fun bytes _ => Record.encode layout.blockSize ⟨kind, address, 0, now, name⟩
    = .ok bytes) (.ofExcept fun _ hencode => hencode) fun bytes m'' hkept' hencode => ?_
  have hencodable := Record.encodable_of_encode hencode
  have hbytes := Record.size_of_encode hencodable hencode
  refine .bind (placeFor_blind regular hsize (hkept' (hkept htail)) hencodable.encodedSize_le)
    fun place m'' _ ⟨a, ha, hle, hend⟩ => ?_
  exact .bind (.write regular hsize ha hle (hbytes ▸ hend)) fun _ _ _ _ => .pure trivial

end Directory

/-! ## Calls -/

namespace Volume

open Chain Directory

variable {branches : Branches} {names : List String} {branch : Branch} {blockSize : UInt32}

section Changes

variable (regular : layout.Regular) (hsize : layout.endAddress ≤ size)
  (mapped : Mapped layout m branches)
include regular hsize mapped

/-- A record is rewritten where it stands, in a block in use. -/
theorem updateNode_blind (h : branches names = some branch) (newSize : UInt32) (now : UInt64) :
    (updateNode branch.node newSize now : Edit σ Unit).Blind layout size m fun _ _ => True := by
  rcases hx : branch.node.recordAddress with _ | x
  · rw [updateNode, hx]
    exact .pure trivial
  · obtain ⟨front, name, parent, a, -, hparent, -, -, ha, hle, hend, -⟩ := mapped.exists_block h hx
    have hmem := (mapped.intact hparent).marked a ha
    have hoffsets : Record.headerSize = 18 ∧ Record.sizeOffset = 5 ∧ Record.mtimeOffset = 9 :=
      ⟨rfl, rfl, rfl⟩
    rw [Record.encodedSize] at hend
    rw [updateNode, hx]
    refine .bind (.write regular hsize hmem (by omega) ?_) fun _ m' hkept _ => ?_
    · rw [Bytes.size_ofNumber]
      omega
    · refine (Edit.Blind.write regular hsize (hkept hmem) (by omega) ?_).mono fun _ _ _ => trivial
      rw [Bytes.size_ofNumber]
      omega

theorem write_blind (now : UInt64) (path : String) (offset : Nat) (data : ByteArray) :
    (write layout now path offset data : Edit σ Nat).Blind layout size m fun _ _ => True := by
  rcases hrefusal : writeRefusal branches path offset data.size with _ | e
  · obtain ⟨branch, hbranch, hfile, hlength⟩ := of_writeRefusal hrefusal
    by_cases hdata : data.size = 0
    · exact .of_unchanged fun n hagree =>
        write_empty regular hsize (hagree.mapped regular mapped) now hbranch hfile hdata
    obtain ⟨newSize, hnewSize⟩ := hlength.resolve_left hdata
    have hmax := toNat_grownSize hnewSize
    refine .ask_bind (a := branch.node) (fun store hstore hagree => ?_) ?_
    · exact resolve_eq regular (hstore ▸ hsize) (hagree.mapped regular mapped) hbranch
    rw [if_neg hfile, if_neg hdata]
    refine .ofExcept_bind hnewSize (.bind
      ((updateNode_blind regular hsize mapped hbranch newSize now).strengthen
        (updateNode_ends regular hsize mapped hbranch newSize now fun _ => by omega)) ?_)
    rintro ⟨⟩ m' - ⟨-, ⟨-, stamped, -⟩ | ⟨e, size', mtime', hr, -⟩⟩
    · exact .bind (writeRange_blind regular hsize (stamped.intact hbranch) (mapped.first hbranch)
        offset data) fun _ _ _ _ => .pure trivial
    · cases hr
  · exact .of_unchanged fun n hagree =>
      write_refused regular hsize (hagree.mapped regular mapped) now hrefusal

omit regular hsize in
/-- Contents that agree refuse the same new entries. -/
theorem createRefusal_agree (hagree : Agree layout m n) (path name : String) :
    createRefusal layout n branches path name = createRefusal layout m branches path name := by
  unfold createRefusal grownExtent entryNames
  rcases hbranch : branches (Path.components path) with _ | branch
  · rfl
  · dsimp only
    rw [hagree.entries_eq (mapped.intact hbranch).marked]

theorem create_blind (now : UInt64) (path name : String) (kind : Kind) :
    (create layout now path name kind : Edit σ Node).Blind layout size m fun _ _ => True := by
  rcases hrefusal : createRefusal layout m branches path name with _ | e
  · obtain ⟨branch, hbranch, hcheck, hnew, hlarge⟩ := of_createRefusal hrefusal
    obtain ⟨last, hlast⟩ := (mapped.intact hbranch).exists_last
    have hmarked := (mapped.intact hbranch).marked
    have hmem := hmarked last (List.mem_of_getLast? hlast)
    obtain ⟨-, hkind⟩ := of_checkNew hcheck
    refine .ask_bind (a := branch.node) (fun store hstore hagree => ?_) (.ofExcept_bind hcheck
      (.ask_bind (a := Directory.tail layout m branch.chain last) (fun store hstore hagree => ?_)
        (.ofExcept_bind (if_pos hlarge) ?_)))
    · exact resolve_eq regular (hstore ▸ hsize) (hagree.mapped regular mapped) hbranch
    · have hentries := hagree.entries_eq hmarked
      rw [tailFor_eq regular (hstore ▸ hsize) (hagree.intact regular (mapped.intact hbranch))
        (mapped.first hbranch) hlast (by rw [hentries, find?_eq_none]; exact hnew)]
      rw [Directory.tail, Directory.tail, hentries, hagree.vacantIn_eq hmem]
    · refine .bind (updateNode_blind regular hsize mapped hbranch _ now) fun _ m' hkept _ => ?_
      exact append_blind regular hsize (hkept hmem) name kind now
  · exact .of_unchanged fun n hagree =>
      create_refused regular hsize (hagree.mapped regular mapped) now kind
        ((createRefusal_agree mapped hagree path name).trans hrefusal)

theorem createAt_blind (now : UInt64) (path : String) (kind : Kind) :
    (createAt layout now path kind : Edit σ Node).Blind layout size m fun _ _ => True := by
  refine .bind (P := fun _ m' => m' = m) (.ofExcept fun _ _ => rfl) ?_
  rintro ⟨parent, name⟩ m' - rfl
  exact create_blind regular hsize mapped now parent name kind

end Changes

section Questions

variable (regular : layout.Regular) {store store' : σ}
  (hsize : layout.endAddress ≤ Store.size store) (hsize' : layout.endAddress ≤ Store.size store')
  (mapped : Mapped layout (content store) branches)
  (agree : Agree layout (content store) (content store'))
include regular hsize hsize' mapped agree

/-- Questions have the same answers on stores that agree. -/
theorem question_eq (path : String) :
    scan layout store' path = scan layout store path ∧
      lookup layout store' path = lookup layout store path ∧
      list layout store' path = list layout store path ∧
      ∀ offset length, Volume.read layout store' path offset length
        = Volume.read layout store path offset length := by
  have mapped' := agree.mapped regular mapped
  refine ⟨by rw [scan_eq regular hsize mapped, scan_eq regular hsize' mapped'], ?_⟩
  rcases hbranch : branches (Path.components path) with _ | branch
  · obtain ⟨hlookup, hlist, hread⟩ := question_error regular hsize mapped hbranch
    obtain ⟨hlookup', hlist', hread'⟩ := question_error regular hsize' mapped' hbranch
    exact ⟨hlookup'.trans hlookup.symm, hlist'.trans hlist.symm,
      fun offset length => (hread' offset length).trans (hread offset length).symm⟩
  · have hmarked := (mapped.intact hbranch).marked
    have hentries := agree.entries_eq hmarked
    refine ⟨?_, ?_, fun offset length => ?_⟩
    · rw [lookup_eq regular hsize mapped hbranch, lookup_eq regular hsize' mapped' hbranch,
        hentries]
    · rw [list_eq regular hsize mapped hbranch, list_eq regular hsize' mapped' hbranch, hentries]
    · rw [read_eq regular hsize mapped hbranch, read_eq regular hsize' mapped' hbranch,
        agree.payload_eq regular hmarked]

end Questions

/-- A call on a volume in order ends in the same way on all stores that agree. -/
theorem Call.run_blind (sound : Sound layout blockSize size m branches) (now : UInt64)
    (call : Call) : (call.run layout now : Edit σ Reply).Blind layout size m fun _ _ => True := by
  obtain ⟨⟨regular, hfits, sealed, -⟩, mapped⟩ := sound
  have hask : ∀ {α : Type} {question : σ → Except Error α} (answer : α → Reply),
      (∀ store store', Store.size store = size → Store.size store' = size → content store = m →
        Agree layout m (content store') → question store' = question store) →
      (answer <$> Edit.ask question).Blind layout size m fun _ _ => True :=
    fun answer h => .map (.ask h fun _ _ _ _ _ => trivial)
  cases call with
  | scan path =>
    refine hask _ fun store store' hsize hsize' hcontent hagree => ?_
    subst hcontent
    exact (question_eq regular (hsize ▸ hfits) (hsize' ▸ hfits) mapped hagree path).1
  | lookup path =>
    refine hask _ fun store store' hsize hsize' hcontent hagree => ?_
    subst hcontent
    exact (question_eq regular (hsize ▸ hfits) (hsize' ▸ hfits) mapped hagree path).2.1
  | list path =>
    refine hask _ fun store store' hsize hsize' hcontent hagree => ?_
    subst hcontent
    exact (question_eq regular (hsize ▸ hfits) (hsize' ▸ hfits) mapped hagree path).2.2.1
  | read path offset length =>
    refine hask _ fun store store' hsize hsize' hcontent hagree => ?_
    subst hcontent
    exact (question_eq regular (hsize ▸ hfits) (hsize' ▸ hfits) mapped hagree path).2.2.2 ..
  | write path offset data => exact .map (write_blind regular hfits mapped now path offset data)
  | create parent name kind => exact .map (create_blind regular hfits mapped now parent name kind)
  | makeDirectory path => exact .map (createAt_blind regular hfits mapped now path .directory)
  | createFile path => exact .map (createAt_blind regular hfits mapped now path .file)
  | usage =>
    refine hask _ fun store store' hsize hsize' hcontent hagree => ?_
    subst hcontent
    have sealed' := sealed.congr regular hagree.superblock
    rw [sealed.usage_eq regular (hsize ▸ hfits), sealed'.usage_eq regular (hsize' ▸ hfits),
      hagree.counter_eq]

/-! ## Runs -/

/-- Calls have the same answers on stores that agree, one of which is a volume in order. -/
theorem Call.runAll_eq (calls : List (UInt64 × Call)) {store store' : σ}
    (sound : Sound layout blockSize (Store.size store) (content store) branches)
    (hsize : Store.size store' = Store.size store)
    (agree : Agree layout (content store) (content store')) :
    (Call.runAll layout calls store').1 = (Call.runAll layout calls store).1 := by
  induction calls generalizing store store' branches with
  | nil => rfl
  | cons timed rest ih =>
    obtain ⟨now, call⟩ := timed
    obtain ⟨hresult, hsize₁, hsize₂, agree', -, -⟩ :=
      Call.run_blind sound now call store store' rfl hsize rfl agree
    have hends : (call.run layout now : Edit σ Reply).Ends (Store.size store) (content store) _ :=
      Call.run_ends sound now call
    obtain ⟨-, hsettled⟩ := hends.outcome rfl rfl
    obtain ⟨news, taken, branches', hevolved, -, -⟩ := hsettled.evolved
    have sound' := sound.of_evolved hevolved
    rw [← hsize₁] at sound'
    rw [Call.runAll_cons, Call.runAll_cons, hresult, ih sound' (hsize₂.trans hsize₁.symm) agree']

/-- New volumes of the same size agree. -/
theorem Formatted.agree (formatted : Formatted layout blockSize size m)
    (formatted' : Formatted layout blockSize size n) : Agree layout m n where
  superblock x hle hlt := by
    obtain ⟨i, rfl⟩ := Nat.exists_eq_add_of_le hle
    rw [Block.counterAddress, Superblock.allocCountOffset] at hlt
    have hi : i < Superblock.encodedSize := by
      rw [Superblock.encodedSize]
      omega
    rw [formatted.superblock_eq i hi, formatted'.superblock_eq i hi]
  marked_eq := formatted'.marked_eq.trans formatted.marked_eq.symm
  counter_eq := formatted'.counter_eq.trans formatted.counter_eq.symm
  blocks a ha x hx := by
    rw [formatted.marked_eq, Finset.mem_singleton] at ha
    subst ha
    rw [formatted.zero x hx, formatted'.zero x hx]

/-- Formatting leaves no trace of what a store held before: calls on any two stores of one size that
were formatted have the same answers, and what they read was written since or is zero. -/
theorem runAll_independent {old old' formatted : σ} (hsize : Store.size old' = Store.size old)
    (hformat : format blockSize old = .ok layout formatted) (calls : List (UInt64 × Call)) :
    ∃ formatted', format blockSize old' = .ok layout formatted' ∧
      (Call.runAll layout calls formatted').1 = (Call.runAll layout calls formatted).1 ∧
      ReadsTraced [] calls (Call.runAll layout calls formatted).1 := by
  have hlayout := layoutFor_of_ok hformat
  rw [← hsize] at hlayout
  have hformat' := format_eq hlayout
  generalize ((format blockSize).outcome old').2 = formatted' at hformat'
  obtain ⟨hsame, hnew⟩ := formatted_of_ok hformat
  obtain ⟨hsame', hnew'⟩ := formatted_of_ok hformat'
  rw [hsize] at hsame' hnew'
  have sound := hnew.sound
  rw [← hsame] at sound
  refine ⟨formatted', hformat', ?_, ?_⟩
  · exact Call.runAll_eq calls sound (hsame'.trans hsame.symm) (hnew.agree hnew')
  · exact Call.runAll_readsTraced calls sound (traced_rootOnly layout _)

theorem runAll_independent_of_stale :
    ∃ stale volume volume' : Memory, (∀ i < 4195840, Bytes.get stale.bytes i = 7) ∧
      format 512 (blank 4195840) = .ok smallest volume ∧ format 512 stale = .ok smallest volume' ∧
      (Call.runAll smallest [(5, .createFile "/a"), (6, .write "/a" 600 [1].toByteArray),
          (7, .read "/a" 0 601)] volume').1
        = (Call.runAll smallest [(5, .createFile "/a"), (6, .write "/a" 600 [1].toByteArray),
          (7, .read "/a" 0 601)] volume).1 := by
  obtain ⟨volume, hformat⟩ := format_blank
  have hsize : Store.size (Memory.mk ⟨.replicate 4195840 7⟩) = Store.size (blank 4195840) := by
    rw [size_blank]
    exact Array.size_replicate
  obtain ⟨volume', hformat', hsame, -⟩ := runAll_independent hsize hformat _
  refine ⟨_, volume, volume', fun i hi => ?_, hformat, hformat', hsame⟩
  have hin : i < (ByteArray.mk (.replicate 4195840 7)).size := by
    rwa [ByteArray.size, Array.size_replicate]
  rw [Bytes.get, dif_pos hin, ByteArray.getElem_eq_getElem_data]
  exact Array.getElem_replicate ..

end Volume

end ChainFs
