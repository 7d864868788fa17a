import ChainFs.Proofs.Volume.Evolution
import ChainFs.Proofs.Volume.Questions

/-!
# Edits of a volume

An edit is one of the three changes after another, with a failure possible behind each. First the
refusals are split off: `Volume.writeRefusal` and `Volume.createRefusal` say from the branches alone
why an edit is refused, and a refused edit writes nothing. What is not refused can only end early
for lack of space or at a failing write, and these ends are named by structures that say how far the
edit came.

* `Volume.updateNode_ends` — a new size and mtime for a node;
* `Volume.write_ends` — a write into a file, and the ways it is refused;
* `Volume.create_ends` — a new entry, and the ways it is refused.

An edit that is cut off in between is one of these ends, and there the volume still holds branches.
-/

namespace ChainFs.Volume

open Store Bitmap Chain Directory

variable {σ : Type} [Store σ] [Faithful σ] {layout : Layout} {m m' : Content} {size : Nat}
  {branches : Branches} {names : List String} {branch : Branch}

/-! ## Size and mtime of a node -/

/-- The node of a branch got another size and mtime, and nothing else changed that can be seen. -/
structure Stamped (layout : Layout) (m : Content) (branches : Branches) (names : List String)
    (size : UInt32) (mtime : UInt64) (m' : Content) : Prop where
  evolved : Evolved layout m branches names [] [] 0 m'
    (branches.modify names (Branch.stamp size mtime))
  alike : ∀ {names' branch'}, branches names' = some branch' → Alike layout m m' branch'
  vacant : ∀ {names' branch'}, branches names' = some branch' → ∀ b ∈ branch'.chain,
    vacantIn layout m' b Cursor.firstRecord = vacantIn layout m b Cursor.firstRecord

theorem Stamped.refl (mapped : Mapped layout m branches) (h : branches names = some branch) :
    Stamped layout m branches names branch.node.record.size branch.node.record.mtime m := by
  have hsame : branch.stamp branch.node.record.size branch.node.record.mtime = branch := by
    unfold Branch.stamp
    split <;> rfl
  refine ⟨?_, fun _ => .refl .., fun _ _ _ => rfl⟩
  rw [Branches.modify_eq_self h hsame]
  exact .refl mapped names

theorem Rewritten.stamped {x : Nat} {newSize : UInt32} {mtime : UInt64}
    (rewritten : Rewritten layout m m' branches names branch x newSize mtime)
    (mapped : Mapped layout m branches) (regular : layout.Regular) :
    Stamped layout m branches names newSize mtime m' :=
  ⟨rewritten.evolved mapped regular, rewritten.alike mapped regular,
    fun h => (rewritten.entries_eq mapped regular h).2⟩

/-- No byte changed but those of size and mtime in the record of a node. -/
def Restamped (node : Node) (m m' : Content) : Prop :=
  ∀ y, (∀ x, node.recordAddress = some x →
    y < x + Record.sizeOffset ∨ x + Record.nameSizeOffset ≤ y) → m' y = m y

/-- Rewriting the record of a node gives it another size and mtime. If it is cut off, it may be the
size alone. -/
theorem updateNode_ends (regular : layout.Regular) (hsize : layout.endAddress ≤ size)
    (mapped : Mapped layout m branches) (h : branches names = some branch) (newSize : UInt32)
    (mtime : UInt64)
    (hgrown : ¬ branch.node.isDirectory → branch.node.record.size.toNat ≤ newSize.toNat) :
    (updateNode branch.node newSize mtime : Edit σ Unit).Ends size m fun r m' =>
      (r = .ok () ∧ Stamped layout m branches names newSize mtime m' ∧
        Restamped branch.node m m') ∨
      ∃ e size' mtime', r = .error e ∧ Fault σ e ∧
        Stamped layout m branches names size' mtime' m' := by
  rcases hx : branch.node.recordAddress with _ | x
  · -- the root has no record
    have hsame : branch.stamp newSize mtime = branch := if_pos hx
    rw [updateNode, hx]
    refine .pure (.inl ⟨rfl, ⟨?_, fun _ => .refl .., fun _ _ _ => rfl⟩, fun _ _ => rfl⟩)
    rw [Branches.modify_eq_self h hsame]
    exact .refl mapped names
  · obtain ⟨front, name, parent, a, -, hparent, -, -, ha, hle, hend, -⟩ := mapped.exists_block h hx
    have hend' := regular.end_of_mem ((mapped.intact hparent).covered ha)
    have hoffsets : Record.headerSize = 18 ∧ Record.sizeOffset = 5 ∧ Record.mtimeOffset = 9 ∧
        Record.nameSizeOffset = 17 := ⟨rfl, rfl, rfl, rfl⟩
    rw [Record.encodedSize] at hend
    -- the content after the first write, and after both
    generalize hone : m.put (x + Record.sizeOffset) (Bytes.ofNumber 4 newSize.toNat) = one
    generalize htwo : one.put (x + Record.mtimeOffset) (Bytes.ofNumber 8 mtime.toNat) = two
    have honeSize : UInt32.ofNat (one.number (x + Record.sizeOffset) 4) = newSize := by
      rw [← hone, Content.number_put m _ newSize.toNat_lt, UInt32.ofNat_toNat]
    have honeSame : ∀ y, y < x + Record.sizeOffset ∨ x + Record.nameSizeOffset ≤ y →
        one y = m y := by
      intro y hy
      rw [← hone, Content.put_outside m (by rw [Bytes.size_ofNumber]; omega)]
    have htwoSize : UInt32.ofNat (two.number (x + Record.sizeOffset) 4) = newSize := by
      rw [← htwo, Content.number_put_outside one (by omega), honeSize]
    have htwoMtime : UInt64.ofNat (two.number (x + Record.mtimeOffset) 8) = mtime := by
      rw [← htwo, Content.number_put one _ mtime.toNat_lt, UInt64.ofNat_toNat]
    have htwoSame : ∀ y, y < x + Record.sizeOffset ∨ x + Record.nameSizeOffset ≤ y →
        two y = m y := by
      intro y hy
      rw [← htwo, Content.put_outside one (by rw [Bytes.size_ofNumber]; omega), honeSame y hy]
    rw [updateNode, hx]
    refine .write_bind ?_ (fun e he => ?_) ?_
    · rw [Bytes.size_ofNumber]
      omega
    · exact .inr ⟨e, _, _, rfl, he, .refl mapped h⟩
    · rw [hone]
      refine .write ?_ ?_ fun e he => ?_
      · rw [Bytes.size_ofNumber]
        omega
      · rw [htwo]
        have rewritten : Rewritten layout m two branches names branch x newSize mtime :=
          ⟨h, hx, htwoSize, htwoMtime, htwoSame, hgrown⟩
        exact .inl ⟨rfl, rewritten.stamped mapped regular, fun y hy => htwoSame y (hy x hx)⟩
      · have rewritten : Rewritten layout m one branches names branch x newSize _ :=
          ⟨h, hx, honeSize, rfl, honeSame, hgrown⟩
        exact .inr ⟨e, newSize, _, rfl, he, rewritten.stamped mapped regular⟩

/-- A branch got another size and mtime and the blocks `added` behind its chain. -/
abbrev Extended (layout : Layout) (m : Content) (branches : Branches) (names : List String)
    (size : UInt32) (mtime : UInt64) (added taken : List Nat) (counted : Nat) (m' : Content) :
    Prop :=
  Evolved layout m branches names [] taken counted m'
    (branches.modify names (Branch.extend added ∘ Branch.stamp size mtime))

/-- What an edit of a branch has done that was cut off: the branch may have got another size and
mtime and more blocks, and one of the blocks taken may not be counted. -/
def Cut (layout : Layout) (m : Content) (branches : Branches) (names : List String) (m' : Content) :
    Prop :=
  ∃ size mtime added taken counted,
    Extended layout m branches names size mtime added taken counted m' ∧
    counted ≤ taken.length ∧ taken.length ≤ counted + 1

theorem Stamped.extended {newSize : UInt32} {mtime : UInt64}
    (stamped : Stamped layout m branches names newSize mtime m') :
    Extended layout m branches names newSize mtime [] [] 0 m' := by
  rw [Extended, Branch.extend_nil, Function.id_comp]
  exact stamped.evolved

theorem Stamped.cut {newSize : UInt32} {mtime : UInt64}
    (stamped : Stamped layout m branches names newSize mtime m') : Cut layout m branches names m' :=
  ⟨newSize, mtime, [], [], 0, stamped.extended, by simp, by simp⟩

/-- The rewriting of a record before other steps. -/
theorem updateNode_bind_ends {α : Type} (regular : layout.Regular)
    (hsize : layout.endAddress ≤ size) (mapped : Mapped layout m branches)
    (h : branches names = some branch) (newSize : UInt32) (mtime : UInt64)
    (hgrown : ¬ branch.node.isDirectory → branch.node.record.size.toNat ≤ newSize.toNat)
    {second : Unit → Edit σ α} {post : Except Error α → Content → Prop}
    (hfault : ∀ e m', Fault σ e → Cut layout m branches names m' → post (.error e) m')
    (hsecond : ∀ m', Stamped layout m branches names newSize mtime m' →
      Restamped branch.node m m' → (second ()).Ends size m' post) :
    (updateNode branch.node newSize mtime >>= second).Ends size m post := by
  refine .bind (updateNode_ends regular hsize mapped h newSize mtime hgrown) ?_ ?_
  · rintro e m' (⟨hr, -⟩ | ⟨e', size', mtime', hr, he, stamped⟩)
    · cases hr
    · cases hr
      exact hfault e m' he stamped.cut
  · rintro ⟨⟩ m' (⟨-, stamped, restamped⟩ | ⟨e', size', mtime', hr, -⟩)
    · exact hsecond m' stamped restamped
    · cases hr

/-- The chain of a branch is as good after its size and mtime as before. -/
theorem Stamped.intact {newSize : UInt32} {mtime : UInt64}
    (stamped : Stamped layout m branches names newSize mtime m')
    (h : branches names = some branch) : Intact layout m' branch.chain := by
  have hstamp : branches.modify names (Branch.stamp newSize mtime) names
      = some (branch.stamp newSize mtime) := Branches.modify_self h
  have intact := stamped.evolved.mapped.intact hstamp
  rwa [Branch.chain_stamp] at intact

/-- The chain of a branch written to after its size and mtime. -/
theorem Stamped.extend {newSize : UInt32} {mtime : UInt64}
    (stamped : Stamped layout m branches names newSize mtime m') (mapped : Mapped layout m branches)
    (regular : layout.Regular) (h : branches names = some branch) {added spare : List Nat}
    {counted : Nat} {p m'' : Content}
    (written : Written layout m' branch.chain added spare counted p m'')
    (hdirectory : branch.node.isDirectory → p = payload layout m' branch.chain)
    (hfile : ¬ branch.node.isDirectory → ∀ i, newSize.toNat ≤ i → p i = 0) :
    Extended layout m branches names newSize mtime added (added ++ spare) counted m'' := by
  have hstamp : branches.modify names (Branch.stamp newSize mtime) names
      = some (branch.stamp newSize mtime) := Branches.modify_self h
  have hkeeps := Branch.Keeps.stamp branch newSize mtime
  rw [← Branch.chain_stamp newSize mtime] at written hdirectory
  have extension : Extension layout m' m'' (branches.modify names (Branch.stamp newSize mtime))
      names (branch.stamp newSize mtime) added spare counted p := by
    refine ⟨hstamp, written, fun hkind => hdirectory (hkeeps.isDirectory_eq ▸ hkind),
      fun hkind i hi => ?_⟩
    rw [hkeeps.isDirectory_eq] at hkind
    obtain ⟨x, hx⟩ := mapped.exists_record h (mapped.ne_nil_of_file h hkind)
    rw [Branch.stamp_of_record hx] at hi
    exact hfile hkind i hi
  have htrans := stamped.evolved.trans (extension.evolved stamped.evolved.mapped regular)
  rwa [Branches.modify_modify, List.nil_append, List.nil_append, Nat.zero_add] at htrans

/-- Bytes laid over the content of a file after its size and mtime, none behind the new end. -/
theorem Stamped.extended_of_put {newSize : UInt32} {mtime : UInt64}
    (stamped : Stamped layout m branches names newSize mtime m') (mapped : Mapped layout m branches)
    (regular : layout.Regular) (h : branches names = some branch)
    (hfile : ¬ branch.node.isDirectory) {offset : Nat} {bytes : ByteArray}
    (hfits : offset + bytes.size ≤ newSize.toNat)
    (hgrown : branch.node.record.size.toNat ≤ newSize.toNat) {added spare : List Nat}
    {counted : Nat} {m'' : Content}
    (written : Written layout m' branch.chain added spare counted
      ((payload layout m' branch.chain).put offset bytes) m'') :
    Extended layout m branches names newSize mtime added (added ++ spare) counted m'' := by
  have hsame := stamped.alike h
  rw [Alike, if_neg hfile] at hsame
  rw [hsame] at written
  refine stamped.extend mapped regular h written (fun hkind => absurd hkind hfile) fun _ i hi => ?_
  rw [Content.put_outside _ (by omega)]
  exact mapped.zero h hfile i (by omega)

/-! ## Writing into a file -/

theorem toNat_grownSize {node : Node} {offset length : Nat} {newSize : UInt32}
    (h : grownSize node offset length = .ok newSize) :
    newSize.toNat = max (offset + length) node.record.size.toNat := by
  unfold grownSize at h
  dsimp only at h
  split at h
  · rename_i hlt
    rw [← Except.ok.inj h, UInt32.toNat_ofNat_of_lt' hlt]
  · cases h

/-- An empty file gets as large as the data reaches. -/
theorem grownSize_of_empty {node : Node} {offset length : Nat} (h : node.record.size = 0)
    (hlt : offset + length < UInt32.size) :
    grownSize node offset length = .ok (UInt32.ofNat (offset + length)) := by
  rw [grownSize, h, UInt32.toNat_zero, Nat.max_zero]
  exact if_pos hlt

/-- Why a write is refused, if it is. An empty one is carried out without any change. -/
def writeRefusal (branches : Branches) (path : String) (offset length : Nat) : Option Error :=
  match branches (Path.components path) with
  | none => some (.notFound path)
  | some branch =>
    if branch.node.isDirectory then some (.isDirectory path)
    else if length = 0 then none
    else
      match grownSize branch.node offset length with
      | .error e => some e
      | .ok _ => none

theorem of_grownSize_error {node : Node} {offset length : Nat} {e : Error}
    (h : grownSize node offset length = .error e) :
    2 ^ 32 ≤ max (offset + length) node.record.size.toNat ∧ e = .fileTooLarge := by
  unfold grownSize at h
  dsimp only at h
  split at h
  · cases h
  · rename_i hlarge
    exact ⟨Nat.le_of_not_lt hlarge, (Except.error.inj h).symm⟩

/-- The ways in which a write is refused. -/
theorem writeRefusal_cases {path : String} {offset length : Nat} {e : Error}
    (h : writeRefusal branches path offset length = some e) :
    (branches (Path.components path) = none ∧ e = .notFound path) ∨
      ∃ branch, branches (Path.components path) = some branch ∧
        (branch.node.isDirectory ∧ e = .isDirectory path ∨
          ¬ branch.node.isDirectory ∧ length ≠ 0 ∧
            grownSize branch.node offset length = .error e) := by
  unfold writeRefusal at h
  rcases hbranch : branches (Path.components path) with _ | branch
  · rw [hbranch] at h
    exact .inl ⟨rfl, (Option.some.inj h).symm⟩
  · rw [hbranch] at h
    dsimp only at h
    refine .inr ⟨branch, rfl, ?_⟩
    split at h
    · rename_i hkind
      exact .inl ⟨hkind, (Option.some.inj h).symm⟩
    · rename_i hkind
      split at h
      · cases h
      · rename_i hlength
        split at h
        · rename_i e' herror
          obtain rfl := Option.some.inj h
          exact .inr ⟨hkind, hlength, herror⟩
        · cases h

theorem refusal_of_writeRefusal {path : String} {offset length : Nat} {e : Error}
    (h : writeRefusal branches path offset length = some e) : e.Refusal := by
  rcases writeRefusal_cases h with ⟨-, rfl⟩ | ⟨branch, -, ⟨-, rfl⟩ | ⟨-, -, herror⟩⟩
  · trivial
  · trivial
  · rw [(of_grownSize_error herror).2]
    trivial

/-- What a write finds that is not refused. -/
theorem of_writeRefusal {path : String} {offset length : Nat}
    (h : writeRefusal branches path offset length = none) :
    ∃ branch, branches (Path.components path) = some branch ∧ ¬ branch.node.isDirectory ∧
      (length = 0 ∨ ∃ newSize, grownSize branch.node offset length = .ok newSize) := by
  unfold writeRefusal at h
  rcases hbranch : branches (Path.components path) with _ | branch
  · rw [hbranch] at h
    cases h
  · rw [hbranch] at h
    dsimp only at h
    split at h
    · cases h
    · rename_i hfile
      refine ⟨branch, rfl, hfile, ?_⟩
      split at h
      · rename_i hlength
        exact .inl hlength
      · split at h
        · cases h
        · rename_i newSize hsize
          exact .inr ⟨newSize, hsize⟩

/-- A write that is refused changes nothing. -/
theorem write_refused (regular : layout.Regular) (hsize : layout.endAddress ≤ size)
    (mapped : Mapped layout m branches) (now : UInt64) {path : String} {offset : Nat}
    {data : ByteArray} {e : Error} (h : writeRefusal branches path offset data.size = some e) :
    (write layout now path offset data : Edit σ Nat).Ends size m fun r m' =>
      r = .error e ∧ m' = m := by
  rcases writeRefusal_cases h with ⟨hnone, rfl⟩ | ⟨branch, hbranch, hcases⟩
  · refine .ask_bind_error ?_ ⟨rfl, rfl⟩
    rintro store rfl rfl
    exact resolve_error regular hsize mapped hnone
  · refine .ask_bind (a := branch.node) ?_ ?_
    · rintro store rfl rfl
      exact resolve_eq regular hsize mapped hbranch
    rcases hcases with ⟨hkind, rfl⟩ | ⟨hkind, hdata, herror⟩
    · rw [if_pos hkind]
      exact .throw ⟨rfl, rfl⟩
    · rw [if_neg hkind, if_neg hdata]
      exact .ofExcept_bind_error herror ⟨rfl, rfl⟩

/-- A write of nothing changes nothing. -/
theorem write_empty (regular : layout.Regular) (hsize : layout.endAddress ≤ size)
    (mapped : Mapped layout m branches) (now : UInt64) {path : String} {offset : Nat}
    {data : ByteArray} (h : branches (Path.components path) = some branch)
    (hfile : ¬ branch.node.isDirectory) (hdata : data.size = 0) :
    (write layout now path offset data : Edit σ Nat).Ends size m fun r m' =>
      r = .ok 0 ∧ m' = m := by
  refine .ask_bind (a := branch.node) ?_ ?_
  · rintro store rfl rfl
    exact resolve_eq regular hsize mapped h
  · rw [if_neg hfile, if_pos hdata]
    exact .pure ⟨rfl, rfl⟩

/-- A write into a file that is not too large records its size and mtime and lays the data over its
content. If space runs out, what falls inside the chain is written. -/
theorem write_ends (regular : layout.Regular) (hsize : layout.endAddress ≤ size)
    (mapped : Mapped layout m branches) {path : String}
    (h : branches (Path.components path) = some branch) (hfile : ¬ branch.node.isDirectory)
    (now : UInt64) {offset : Nat} {data : ByteArray} (hdata : 0 < data.size) {newSize : UInt32}
    (hnewSize : grownSize branch.node offset data.size = .ok newSize) :
    (write layout now path offset data : Edit σ Nat).Ends size m fun r m' =>
      (∃ added, r = .ok data.size ∧
        Extended layout m branches (Path.components path) newSize now added added added.length m' ∧
        payload layout m' (branch.chain ++ added)
          = (payload layout m branch.chain).put offset data ∧
        offset + data.size ≤ capacity layout (branch.chain ++ added) ∧
        (added = [] ∨ capacity layout (branch.chain ++ added)
          < offset + data.size + layout.payloadSize)) ∨
      (∃ added, r = .error .outOfSpace ∧
        Extended layout m branches (Path.components path) newSize now added added added.length m' ∧
        marked layout m' = layout.covered ∧
        capacity layout (branch.chain ++ added) < offset + data.size ∧
        payload layout m' (branch.chain ++ added) = (payload layout m branch.chain).put offset
          (data.extract 0 (capacity layout (branch.chain ++ added) - offset))) ∨
      ∃ e, r = .error e ∧ Fault σ e ∧ Cut layout m branches (Path.components path) m' := by
  have hmax := toNat_grownSize hnewSize
  have hfits : ∀ n, offset + (data.extract 0 n).size ≤ newSize.toNat := by
    intro n
    rw [ByteArray.size_extract]
    omega
  refine .ask_bind (a := branch.node) ?_ ?_
  · rintro store rfl rfl
    exact resolve_eq regular hsize mapped h
  rw [if_neg hfile, if_neg (by omega)]
  refine .ofExcept_bind hnewSize (updateNode_bind_ends regular hsize mapped h newSize now
    (fun _ => by omega) (fun e m' he cut => .inr (.inr ⟨e, rfl, he, cut⟩)) fun m₁ stamped _ => ?_)
  have hsame := stamped.alike h
  rw [Alike, if_neg hfile] at hsame
  refine .bind
    (writeRange_ends regular hsize (stamped.intact h) (mapped.first h) offset hdata) ?_ ?_
  · rintro e m' (⟨added, hr, -⟩ | ⟨added, hr, written, hfull, hshort⟩ | ⟨e', n, hr, he, torn⟩)
    · cases hr
    · -- the part inside the chain was written
      cases hr
      have hextended :=
        stamped.extended_of_put mapped regular h hfile (hfits _) (by omega) written
      have hpayload := written.payload_eq
      rw [List.append_nil] at hextended
      rw [hsame] at hpayload
      exact .inr (.inl ⟨added, rfl, hextended, hfull, hshort, hpayload⟩)
    · cases hr
      obtain ⟨added, spare, counted, written, -, hle, hge⟩ := torn
      have hextended := stamped.extended_of_put mapped regular h hfile (hfits n) (by omega) written
      refine .inr (.inr
        ⟨e, rfl, he, newSize, now, added, added ++ spare, counted, hextended, ?_, ?_⟩)
      · rwa [List.length_append]
      · rwa [List.length_append]
  · rintro ⟨⟩ m' (⟨added, -, written, hend, hlength⟩ | ⟨added, hr, -⟩ | ⟨e', n, hr, -⟩)
    · have hextended :=
        stamped.extended_of_put mapped regular h hfile (by omega) (by omega) written
      have hpayload := written.payload_eq
      rw [List.append_nil] at hextended
      rw [hsame] at hpayload
      exact .pure (.inl ⟨added, rfl, hextended, hpayload, hend, hlength⟩)
    · cases hr
    · cases hr

/-! ## A new entry -/

/-- The chain of a directory ends with the block `last`, maybe after new blocks, and `length` bytes
have room behind the last record there. Nothing else has changed; the block `b` is still unused. -/
structure Placed (layout : Layout) (m : Content) (branches : Branches) (names : List String)
    (branch : Branch) (length b : Nat) (added : List Nat) (last : Nat) (m' : Content) : Prop where
  evolved : Evolved layout m branches names [] added added.length m'
    (branches.modify names (Branch.extend added))
  last_eq : (branch.chain ++ added).getLast? = some last
  room : vacantIn layout m' last Cursor.firstRecord + length ≤ layout.blockSize
  unused : Unused layout m' (branches.modify names (Branch.extend added)) b

/-- The last block of a directory has room itself. -/
theorem Placed.refl (mapped : Mapped layout m branches) {length last b : Nat}
    (hlast : branch.chain.getLast? = some last)
    (hroom : vacantIn layout m last Cursor.firstRecord + length ≤ layout.blockSize)
    (unused : Unused layout m branches b) :
    Placed layout m branches names branch length b [] last m where
  evolved := by
    rw [Branch.extend_nil, Branches.modify_id]
    exact .refl mapped names
  last_eq := by
    rw [List.append_nil]
    exact hlast
  room := hroom
  unused := by
    rw [Branch.extend_nil, Branches.modify_id]
    exact unused

/-- A new block that the chain of a directory goes on with has room from its beginning. -/
theorem Placed.of_written (regular : layout.Regular) (mapped : Mapped layout m branches)
    (h : branches names = some branch) (hkind : branch.node.isDirectory) {length b c : Nat}
    (hlength : Cursor.firstRecord + length ≤ layout.blockSize)
    (unused : Unused layout m branches b)
    (written : Written layout m branch.chain [c] [] 1 (payload layout m branch.chain) m') :
    Placed layout m branches names branch length b [c] c m' ∧
      freeAddress layout m' c = c + Cursor.firstRecord := by
  have extension : Extension layout m m' branches names branch [c] [] 1 _ :=
    ⟨h, written, fun _ => rfl, fun hnot => absurd hkind hnot⟩
  have hvacant : vacantIn layout m' c Cursor.firstRecord = Cursor.firstRecord :=
    (nodesFrom_zero (zero_of_payload regular written.payload_eq c (by simp))).2
  refine ⟨⟨extension.evolved mapped regular, List.getLast?_concat, ?_, ?_⟩, ?_⟩
  · rw [hvacant]
    exact hlength
  · exact unused.extend regular h written
  · rw [freeAddress, hvacant]

/-- Finding a place for a record: behind the end of the directory, or in a new block that its chain
goes on with. -/
theorem placeFor_ends (regular : layout.Regular) (hsize : layout.endAddress ≤ size)
    (mapped : Mapped layout m branches) (h : branches names = some branch)
    (hkind : branch.node.isDirectory) {last : Nat} (hlast : branch.chain.getLast? = some last)
    {tail : Cursor} (hblock : tail.block = last)
    (hoffset : tail.offset = vacantIn layout m last Cursor.firstRecord) {length b : Nat}
    (hlength : Cursor.firstRecord + length ≤ layout.blockSize)
    (unused : Unused layout m branches b) :
    (placeFor layout tail length : Edit σ Nat).Ends size m fun r m' =>
      (∃ added last', r = .ok (freeAddress layout m' last') ∧
        Placed layout m branches names branch length b added last' m' ∧
        added.length = if tail.offset + length ≤ layout.blockSize then 0 else 1) ∨
      (r = .error .outOfSpace ∧ marked layout m = layout.covered ∧ m' = m) ∨
      ∃ e spare counted, r = .error e ∧ Fault σ e ∧
        Evolved layout m branches names [] spare counted m' branches ∧
        counted ≤ spare.length ∧ spare.length ≤ counted + 1 := by
  unfold placeFor
  split
  · -- the last block has room
    rename_i hroom
    refine .pure (.inl ⟨[], last, ?_, .refl mapped hlast (hoffset ▸ hroom) unused, rfl⟩)
    rw [hblock, hoffset, freeAddress]
  · refine (Chain.extend_ends regular hsize (mapped.intact h) (hblock ▸ hlast)
      (· + Cursor.firstRecord)).mono ?_
    rintro r m' (⟨c, rfl, written⟩ | ⟨rfl, hfull, rfl⟩ |
      ⟨e, spare, counted, rfl, he, growth, -, hle, hge⟩)
    · obtain ⟨placed, hfree⟩ :=
        Placed.of_written regular mapped h hkind hlength unused written
      exact .inl ⟨[c], c, by rw [hfree], placed, rfl⟩
    · exact .inr (.inl ⟨rfl, hfull, rfl⟩)
    · exact .inr (.inr ⟨e, spare, counted, rfl, he, mapped.evolved_growth regular growth names, hle,
        hge⟩)

/-- A directory that only went on with new blocks takes the record of a name that is new. -/
theorem Placed.addition {added : List Nat} {last : Nat} {record : Record}
    (placed : Placed layout m branches names branch record.encodedSize record.address added last m')
    (h : branches names = some branch) (hkind : branch.node.isDirectory) (hsize : record.size = 0)
    (hvalid : validateName record.name = .ok ())
    (hnew : record.name ∉ entryNames layout m branch.chain) :
    Addition layout m' (branches.modify names (Branch.extend added)) names (branch.extend added)
      last record := by
  have hbranch : branches.modify names (Branch.extend added) names = some (branch.extend added) :=
    Branches.modify_self h
  have hnames := placed.evolved.listing h hbranch hkind
  rw [List.append_nil] at hnames
  refine ⟨hbranch, hkind, placed.last_eq, placed.unused, hsize, hvalid, ?_, placed.room⟩
  rw [find?_eq_none, hnames]
  exact hnew

/-- Writing the record of an entry that has its block behind the end of the directory. -/
theorem placeRecord_ends (regular : layout.Regular) (hsize : layout.endAddress ≤ size)
    (mapped : Mapped layout m branches) (h : branches names = some branch)
    (hkind : branch.node.isDirectory) {last : Nat} (hlast : branch.chain.getLast? = some last)
    {tail : Cursor} (hblock : tail.block = last)
    (hoffset : tail.offset = vacantIn layout m last Cursor.firstRecord) {record : Record}
    (unused : Unused layout m branches record.address) (hempty : record.size = 0)
    (hvalid : validateName record.name = .ok ())
    (hnew : record.name ∉ entryNames layout m branch.chain) {bytes : ByteArray}
    (hbytes : record.encode layout.blockSize = .ok bytes) :
    (do
      let place ← placeFor layout tail record.encodedSize
      Store.write place bytes
      return ⟨record, some place⟩ : Edit σ Node).Ends size m fun r m' =>
      (∃ place added, r = .ok ⟨record, some place⟩ ∧
        Evolved layout m branches names [record.name] added added.length m'
          (Function.update (branches.modify names (Branch.extend added)) (names ++ [record.name])
            (some ⟨⟨record, some place⟩, [record.address]⟩)) ∧
        added.length = if tail.offset + record.encodedSize ≤ layout.blockSize then 0 else 1) ∨
      (r = .error .outOfSpace ∧ marked layout m = layout.covered ∧ m' = m) ∨
      ∃ e added taken counted, r = .error e ∧ Fault σ e ∧
        Evolved layout m branches names [] taken counted m'
          (branches.modify names (Branch.extend added)) ∧
        counted ≤ taken.length ∧ taken.length ≤ counted + 1 := by
  have hencodable := encodable_of_valid regular hvalid unused.covered
  have hlength : Cursor.firstRecord + record.encodedSize ≤ layout.blockSize :=
    regular.record_le hencodable.encodedSize_le
  refine .bind
    (placeFor_ends regular hsize mapped h hkind hlast hblock hoffset hlength unused) ?_ ?_
  · rintro e m' (⟨added, last', hr, -⟩ | ⟨hr, hfull, rfl⟩ |
      ⟨e', spare, counted, hr, he, hevolved, hle, hge⟩)
    · cases hr
    · cases hr
      exact .inr (.inl ⟨rfl, hfull, rfl⟩)
    · cases hr
      refine .inr (.inr ⟨e, [], spare, counted, rfl, he, ?_, hle, hge⟩)
      rw [Branch.extend_nil, Branches.modify_id]
      exact hevolved
  rintro place m₁ (⟨added, last', hr, placed, hlength⟩ | ⟨hr, -⟩ | ⟨e', spare, counted, hr, -⟩)
  · -- the directory shows nothing new until the record is written
    cases hr
    have addition := placed.addition h hkind hempty hvalid hnew
    have hend := regular.end_of_mem (addition.last_covered placed.evolved.mapped)
    have hroom := placed.room
    refine .write_bind ?_ (fun e he => ?_) (.pure ?_)
    · rw [Record.size_of_encode hencodable hbytes, freeAddress]
      omega
    · exact .inr (.inr ⟨e, added, added, added.length, rfl, he, placed.evolved, Nat.le_refl _,
        Nat.le_succ _⟩)
    · have hdone := placed.evolved.trans (addition.evolved placed.evolved.mapped regular hbytes)
      rw [List.nil_append, List.append_nil, Nat.add_zero] at hdone
      exact .inl ⟨_, added, rfl, hdone, hlength⟩
  · cases hr
  · cases hr

/-- Taking a block for a new entry and writing its record behind the end of the directory. -/
theorem append_ends (regular : layout.Regular) (hsize : layout.endAddress ≤ size)
    (mapped : Mapped layout m branches) (h : branches names = some branch)
    (hkind : branch.node.isDirectory) {last : Nat} (hlast : branch.chain.getLast? = some last)
    {tail : Cursor} (hblock : tail.block = last)
    (hoffset : tail.offset = vacantIn layout m last Cursor.firstRecord) {name : String}
    (hvalid : validateName name = .ok ()) (hnew : name ∉ entryNames layout m branch.chain)
    (kind : Kind) (mtime : UInt64) :
    (append layout tail name kind mtime : Edit σ Node).Ends size m fun r m' =>
      (∃ b place added, r = .ok ⟨⟨kind, b, 0, mtime, name⟩, some place⟩ ∧
        Evolved layout m branches names [name] (b :: added) (added.length + 1) m'
          (Function.update (branches.modify names (Branch.extend added)) (names ++ [name])
            (some ⟨⟨⟨kind, b, 0, mtime, name⟩, some place⟩, [b]⟩)) ∧
        added.length = if tail.offset + (Record.headerSize + name.utf8ByteSize) ≤ layout.blockSize
          then 0 else 1) ∨
      (∃ taken, r = .error .outOfSpace ∧ marked layout m' = layout.covered ∧
        Growth layout m [] taken taken.length m' ∧ taken.length ≤ 1) ∨
      ∃ e added taken counted, r = .error e ∧ Fault σ e ∧
        Evolved layout m branches names [] taken counted m'
          (branches.modify names (Branch.extend added)) ∧
        counted ≤ taken.length ∧ taken.length ≤ counted + 1 := by
  have hmarked := (mapped.intact h).marked last (List.mem_of_getLast? hlast)
  refine .bind (Block.acquire_ends regular hsize) ?_ ?_
  · rintro e m' (⟨b, hr, -⟩ | ⟨hr, hfull, rfl⟩ | ⟨e', spare, hr, he, growth, hspare⟩)
    · cases hr
    · -- there was no block for the entry itself
      cases hr
      exact .inr (.inl ⟨[], rfl, hfull, .refl layout m', by simp⟩)
    · cases hr
      refine .inr (.inr ⟨e, [], spare, 0, rfl, he, ?_, Nat.zero_le _, by omega⟩)
      rw [Branch.extend_nil, Branches.modify_id]
      exact mapped.evolved_growth regular growth names
  rintro b m₁ (⟨b', hr, growth, -, hzero⟩ | ⟨hr, -⟩ | ⟨e', spare, hr, -⟩)
  · cases hr
    -- the block is taken, and the directory is as it was
    have hevolved := mapped.evolved_growth regular growth names
    have unused : Unused layout m₁ branches b := .of_growth mapped growth hzero
    have hvacant : vacantIn layout m₁ last Cursor.firstRecord
        = vacantIn layout m last Cursor.firstRecord :=
      (nodesFrom_congr fun x _ hx => growth.same_of_marked regular hmarked (by simp) hx).2
    have hnames := hevolved.listing h h hkind
    rw [List.append_nil] at hnames
    have hencodable : (⟨kind, b, 0, mtime, name⟩ : Record).Encodable layout.blockSize :=
      encodable_of_valid regular hvalid unused.covered
    have hencode := Record.encode_eq hencodable
    refine .ofExcept_bind hencode ((placeRecord_ends regular hsize hevolved.mapped h hkind hlast
      hblock (hoffset.trans hvacant.symm) unused rfl hvalid (hnames ▸ hnew) hencode).mono ?_)
    rintro r m' (⟨place, added, rfl, hplaced, hlength⟩ | ⟨rfl, hfull, rfl⟩ |
      ⟨e, added, taken, counted, rfl, he, hcut, hle, hge⟩)
    · have hdone := hevolved.trans hplaced
      rw [Nat.add_comm] at hdone
      exact .inl ⟨b, place, added, rfl, hdone, hlength⟩
    · -- there was one, but none for its directory to go on with, and it is not given back
      exact .inr (.inl ⟨[b], rfl, hfull, growth, Nat.le_refl 1⟩)
    · refine .inr (.inr ⟨e, added, b :: taken, 1 + counted, rfl, he, hevolved.trans hcut, ?_, ?_⟩)
      · rw [List.length_cons]
        omega
      · rw [List.length_cons]
        omega
  · cases hr
  · cases hr

/-- How many bytes the entries of a directory take once there is one more. -/
def grownExtent (layout : Layout) (m : Content) (branch : Branch) (name : String) : Nat :=
  extent (entries layout m branch.chain) + (Record.headerSize + name.utf8ByteSize)

/-- Why a new entry is refused, if it is. -/
def createRefusal (layout : Layout) (m : Content) (branches : Branches) (path name : String) :
    Option Error :=
  match branches (Path.components path) with
  | none => some (.notFound path)
  | some branch =>
    match checkNew branch.node name with
    | .error e => some e
    | .ok () =>
      if name ∈ entryNames layout m branch.chain then some (.alreadyExists name)
      else if 2 ^ 32 ≤ grownExtent layout m branch name then some .fileTooLarge
      else none

/-- The ways in which a name is refused. -/
theorem checkNew_cases {parent : Node} {name : String} {e : Error}
    (h : checkNew parent name = .error e) :
    validateName name = .error e ∨
      validateName name = .ok () ∧ ¬ parent.isDirectory ∧ e = .notDirectory parent.record.name := by
  unfold checkNew at h
  rcases hvalid : validateName name with e' | ⟨⟩
  · rw [hvalid] at h
    exact .inl h
  · rw [hvalid] at h
    simp only [bind, Except.bind] at h
    split at h
    · cases h
    · rename_i hkind
      exact .inr ⟨rfl, hkind, (Except.error.inj h).symm⟩

/-- The ways in which a new entry is refused. -/
theorem createRefusal_cases {path name : String} {e : Error}
    (h : createRefusal layout m branches path name = some e) :
    (branches (Path.components path) = none ∧ e = .notFound path) ∨
      ∃ branch, branches (Path.components path) = some branch ∧
        (checkNew branch.node name = .error e ∨
          checkNew branch.node name = .ok () ∧
            (name ∈ entryNames layout m branch.chain ∧ e = .alreadyExists name ∨
              name ∉ entryNames layout m branch.chain ∧
                2 ^ 32 ≤ grownExtent layout m branch name ∧ e = .fileTooLarge)) := by
  unfold createRefusal at h
  rcases hbranch : branches (Path.components path) with _ | branch
  · rw [hbranch] at h
    exact .inl ⟨rfl, (Option.some.inj h).symm⟩
  · rw [hbranch] at h
    dsimp only at h
    refine .inr ⟨branch, rfl, ?_⟩
    split at h
    · rename_i e' hcheck
      obtain rfl := Option.some.inj h
      exact .inl hcheck
    · rename_i hcheck
      refine .inr ⟨hcheck, ?_⟩
      split at h
      · rename_i hold
        exact .inl ⟨hold, (Option.some.inj h).symm⟩
      · rename_i hnew
        split at h
        · rename_i hlarge
          exact .inr ⟨hnew, hlarge, (Option.some.inj h).symm⟩
        · cases h

theorem refusal_of_validateName {name : String} {e : Error} (h : validateName name = .error e) :
    e.Refusal := by
  unfold validateName at h
  split at h
  · cases h
    trivial
  · split at h
    · cases h
      trivial
    · cases h

theorem refusal_of_createRefusal {path name : String} {e : Error}
    (h : createRefusal layout m branches path name = some e) : e.Refusal := by
  rcases createRefusal_cases h with
    ⟨-, rfl⟩ | ⟨branch, -, hcheck | ⟨-, ⟨-, rfl⟩ | ⟨-, -, rfl⟩⟩⟩
  · trivial
  · rcases checkNew_cases hcheck with hvalid | ⟨-, -, rfl⟩
    · exact refusal_of_validateName hvalid
    · trivial
  · trivial
  · trivial

theorem refusal_of_splitLast {path : String} {e : Error} (h : Path.splitLast path = .error e) :
    e.Refusal := by
  unfold Path.splitLast at h
  split at h
  · cases h
    trivial
  · cases h

/-- What the creation of an entry finds that is not refused. -/
theorem of_createRefusal {path name : String}
    (h : createRefusal layout m branches path name = none) :
    ∃ branch, branches (Path.components path) = some branch ∧ checkNew branch.node name = .ok () ∧
      name ∉ entryNames layout m branch.chain ∧ grownExtent layout m branch name < 2 ^ 32 := by
  unfold createRefusal at h
  rcases hbranch : branches (Path.components path) with _ | branch
  · rw [hbranch] at h
    cases h
  · rw [hbranch] at h
    dsimp only at h
    split at h
    · cases h
    · rename_i hcheck
      split at h
      · cases h
      · rename_i hnew
        split at h
        · cases h
        · rename_i hlarge
          exact ⟨branch, rfl, hcheck, hnew, Nat.lt_of_not_le hlarge⟩

/-- A new entry that is refused changes nothing. -/
theorem create_refused (regular : layout.Regular) (hsize : layout.endAddress ≤ size)
    (mapped : Mapped layout m branches) (now : UInt64) {path name : String} (kind : Kind)
    {e : Error} (h : createRefusal layout m branches path name = some e) :
    (create layout now path name kind : Edit σ Node).Ends size m fun r m' =>
      r = .error e ∧ m' = m := by
  rcases createRefusal_cases h with ⟨hnone, rfl⟩ | ⟨branch, hbranch, hcases⟩
  · refine .ask_bind_error ?_ ⟨rfl, rfl⟩
    rintro store rfl rfl
    exact resolve_error regular hsize mapped hnone
  refine .ask_bind (a := branch.node) ?_ ?_
  · rintro store rfl rfl
    exact resolve_eq regular hsize mapped hbranch
  rcases hcases with hcheck | ⟨hcheck, ⟨hold, rfl⟩ | ⟨hnew, hlarge, rfl⟩⟩
  · exact .ofExcept_bind_error hcheck ⟨rfl, rfl⟩
  · refine .ofExcept_bind hcheck (.ask_bind_error ?_ ⟨rfl, rfl⟩)
    rintro store rfl rfl
    exact tailFor_error regular hsize (mapped.intact hbranch) (mapped.first hbranch)
      (mt find?_eq_none.mp (not_not.mpr hold))
  · obtain ⟨last, hlast⟩ := (mapped.intact hbranch).exists_last
    refine .ofExcept_bind hcheck
      (.ask_bind (a := Directory.tail layout m branch.chain last) ?_ ?_)
    · rintro store rfl rfl
      exact tailFor_eq regular hsize (mapped.intact hbranch) (mapped.first hbranch) hlast
        (find?_eq_none.mpr hnew)
    · exact .ofExcept_bind_error (if_neg (Nat.not_lt.mpr hlarge)) ⟨rfl, rfl⟩

theorem of_checkNew {parent : Node} {name : String} (h : checkNew parent name = .ok ()) :
    validateName name = .ok () ∧ parent.isDirectory := by
  unfold checkNew at h
  rcases hvalid : validateName name with e | ⟨⟩
  · rw [hvalid] at h
    cases h
  · rw [hvalid] at h
    simp only [bind, Except.bind] at h
    split at h
    · rename_i hkind
      exact ⟨rfl, hkind⟩
    · cases h

/-- A new entry changes size and mtime of its directory, takes a block and gets a record behind the
end of the directory, which takes another block if its last one has no room for it. If space runs
out, nothing but size and mtime of the directory has changed that can be seen. -/
theorem create_ends (regular : layout.Regular) (hsize : layout.endAddress ≤ size)
    (mapped : Mapped layout m branches) {path : String}
    (h : branches (Path.components path) = some branch) (now : UInt64) {name : String} (kind : Kind)
    (hcheck : checkNew branch.node name = .ok ())
    (hnew : name ∉ entryNames layout m branch.chain)
    (hlarge : grownExtent layout m branch name < 2 ^ 32) :
    (create layout now path name kind : Edit σ Node).Ends size m fun r m' =>
      (∃ b place added, r = .ok ⟨⟨kind, b, 0, now, name⟩, some place⟩ ∧
        Evolved layout m branches (Path.components path) [name] (b :: added) (added.length + 1) m'
          (Function.update (branches.modify (Path.components path) (Branch.extend added ∘
            Branch.stamp (UInt32.ofNat (grownExtent layout m branch name)) now))
            (Path.components path ++ [name])
            (some ⟨⟨⟨kind, b, 0, now, name⟩, some place⟩, [b]⟩)) ∧
        ∀ last, branch.chain.getLast? = some last → added.length =
          if vacantIn layout m last Cursor.firstRecord + (Record.headerSize + name.utf8ByteSize)
            ≤ layout.blockSize then 0 else 1) ∨
      (∃ taken, r = .error .outOfSpace ∧ marked layout m' = layout.covered ∧ taken.length ≤ 1 ∧
        Extended layout m branches (Path.components path)
          (UInt32.ofNat (grownExtent layout m branch name)) now [] taken taken.length m' ∧
        ∃ m₁, Restamped branch.node m m₁ ∧ Growth layout m₁ [] taken taken.length m') ∨
      ∃ e, r = .error e ∧ Fault σ e ∧ Cut layout m branches (Path.components path) m' := by
  obtain ⟨hvalid, hkind⟩ := of_checkNew hcheck
  obtain ⟨last, hlast⟩ := (mapped.intact h).exists_last
  have hmem := List.mem_of_getLast? hlast
  refine .ask_bind (a := branch.node) ?_ (.ofExcept_bind hcheck (.ask_bind
    (a := Directory.tail layout m branch.chain last) ?_ (.ofExcept_bind (if_pos hlarge) ?_)))
  · rintro store rfl rfl
    exact resolve_eq regular hsize mapped h
  · rintro store rfl rfl
    exact tailFor_eq regular hsize (mapped.intact h) (mapped.first h) hlast
      (find?_eq_none.mpr hnew)
  refine updateNode_bind_ends regular hsize mapped h _ now (fun hnot => absurd hkind hnot)
    (fun e m' he cut => .inr (.inr ⟨e, rfl, he, cut⟩)) fun m₁ stamped hrestamped => ?_
  have hstamp : branches.modify (Path.components path)
        (Branch.stamp (UInt32.ofNat (grownExtent layout m branch name)) now) (Path.components path)
      = some (branch.stamp (UInt32.ofNat (grownExtent layout m branch name)) now) :=
    Branches.modify_self h
  have hkeeps := Branch.Keeps.stamp branch (UInt32.ofNat (grownExtent layout m branch name)) now
  have halike := stamped.alike h
  rw [Alike, if_pos hkind] at halike
  refine (append_ends regular hsize stamped.evolved.mapped hstamp
    (hkeeps.isDirectory_eq.trans hkind) (by rwa [Branch.chain_stamp]) rfl
    (stamped.vacant h last hmem).symm hvalid (by rwa [Branch.chain_stamp, halike]) kind now).mono ?_
  rintro r m' (⟨b, place, added, rfl, hevolved, hlength⟩ | ⟨taken, rfl, hfull, growth, hone⟩ |
    ⟨e, added, taken, counted, rfl, he, hevolved, hle, hge⟩)
  · have htrans := stamped.evolved.trans hevolved
    rw [Branches.modify_modify, List.nil_append, List.nil_append, Nat.zero_add] at htrans
    refine .inl ⟨b, place, added, rfl, htrans, fun last' hlast' => ?_⟩
    obtain rfl := Option.some.inj (hlast.symm.trans hlast')
    exact hlength
  · have htrans := stamped.evolved.trans
      (stamped.evolved.mapped.evolved_growth regular growth (Path.components path))
    rw [List.nil_append, List.nil_append, Nat.zero_add] at htrans
    refine .inr (.inl ⟨taken, rfl, hfull, hone, ?_, m₁, hrestamped, growth⟩)
    rw [Extended, Branch.extend_nil, Function.id_comp]
    exact htrans
  · have htrans := stamped.evolved.trans hevolved
    rw [Branches.modify_modify, List.nil_append, List.nil_append, Nat.zero_add] at htrans
    exact .inr (.inr ⟨e, rfl, he, _, _, added, taken, counted, htrans, hle, hge⟩)

end ChainFs.Volume
