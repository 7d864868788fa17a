import ChainFs.Proofs.Volume.Guarded
import ChainFs.Proofs.Volume.Interrupted
import ChainFs.Proofs.Volume.Sizes

/-!
# Calls that fail

A call that fails has one of three reasons, and it leaves something behind for one of them only. It
is rejected for what is asked or for what the image holds; or it meets a failure on its way, before
anything was written; or space runs out, after the record of the directory has been rewritten. The
first two are shown for stores with any bytes, on which there are no branches to speak of.

* `Volume.Call.Meets` — the failures that a call meets on its way to a node, or to the end of the
  directory where an entry is to be created; they leave the store as it was;
* `Volume.Spared` — all that stays the same where space runs out for a new entry;
* `Volume.failures_spare` — what calls leave that are rejected, or that space runs out for.
-/

namespace ChainFs.Volume

open Store Bitmap Block Directory

/-! ## Failures before the first write -/

section Meets

variable {σ : Type} [Store σ] {layout : Layout} {store : σ} {call : Call} {e : Error}

/-- A call that creates an entry does so in the directory its path leads to. -/
theorem Call.run_of_creation {parent name : String} {kind : Kind}
    (h : call.creation = some (parent, name, kind)) (layout : Layout) (now : UInt64) :
    (call.run layout now : Edit σ Reply)
      = .created <$> Volume.create layout now parent name kind := by
  have hcreateAt : ∀ {path : String} {kind' : Kind},
      (Path.splitLast path).toOption.map (fun parts => (parts.1, parts.2, kind'))
        = some (parent, name, kind) →
      (Volume.createAt layout now path kind' : Edit σ Node)
        = Volume.create layout now parent name kind := by
    intro path kind' h
    rcases hsplit : Path.splitLast path with e | ⟨parent', name'⟩
    · rw [hsplit] at h
      cases h
    · rw [hsplit] at h
      cases h
      rw [Volume.createAt, hsplit]
      rfl
  cases call with
  | create parent' name' kind' =>
    cases h
    rfl
  | makeDirectory path => exact congrArg (Reply.created <$> ·) (hcreateAt h)
  | createFile path => exact congrArg (Reply.created <$> ·) (hcreateAt h)
  | _ => cases h

/-- What a call meets on its way: as the path is resolved that it works on, or as the directory is
searched for the name of a new entry. -/
inductive Call.Meets (layout : Layout) (store : σ) : Call → Error → Prop
  | written {path : String} {offset : Nat} {data : ByteArray} {e : Error}
      (h : resolve layout store path = .error e) :
    Meets layout store (.write path offset data) e
  | parent {call : Call} {parent name : String} {kind : Kind} {e : Error}
      (hcall : call.creation = some (parent, name, kind))
      (h : resolve layout store parent = .error e) :
    Meets layout store call e
  | entries {call : Call} {parent name : String} {kind : Kind} {node : Node} {e : Error}
      (hcall : call.creation = some (parent, name, kind))
      (hparent : resolve layout store parent = .ok node) (hcheck : checkNew node name = .ok ())
      (h : tailFor layout store node.record.address name = .error e) :
    Meets layout store call e

/-- What is met on the way ends the call, and nothing was changed yet. -/
theorem Call.Meets.outcome_eq (meets : call.Meets layout store e) (now : UInt64) :
    (call.run layout now).outcome store = (.error e, store) := by
  cases meets with
  | written h =>
    rw [Call.run, Volume.write, Edit.outcome_map, Edit.outcome_bind, Edit.outcome_ask, h]
    rfl
  | parent hcall h =>
    rw [Call.run_of_creation hcall, Volume.create, Edit.outcome_map, Edit.outcome_bind,
      Edit.outcome_ask, h]
    rfl
  | entries hcall hparent hcheck h =>
    rw [Call.run_of_creation hcall, Volume.create, Edit.outcome_map, Edit.outcome_bind,
      Edit.outcome_ask, hparent]
    dsimp only
    rw [Directory.create, Edit.outcome_bind, Edit.ofExcept, Edit.outcome_ask, hcheck]
    dsimp only
    rw [Edit.outcome_bind, Edit.outcome_ask, h]
    rfl

end Meets

/-! ## Entries that space runs out for -/

section Short

variable {τ : Type} [Store τ] [Reliable τ] {layout : Layout} {blockSize : UInt32} {size : Nat}
  {m : Content} {branches : Branches}

/-- What is left of an entry in the directory `parent` that space ran out for, compared with the
store from before. -/
structure Spared (layout : Layout) (parent : String) (before after : τ) : Prop where
  /-- Paths lead to what they led to. Only the record of the directory may be another one. -/
  resolves : ∀ path node, scan layout before path = .ok (some node) →
    ∃ node', scan layout after path = .ok (some node') ∧
      node'.record.kind = node.record.kind ∧ node'.record.address = node.record.address ∧
      node'.record.name = node.record.name ∧ node'.recordAddress = node.recordAddress ∧
      (Path.components path ≠ Path.components parent → node' = node)
  /-- No other path leads anywhere. -/
  missing : ∀ path, scan layout before path = .ok none → scan layout after path = .ok none
  reads : ∀ path offset length,
    read layout after path offset length = read layout before path offset length
  listings : ∀ path, (list layout after path).map namesOf = (list layout before path).map namesOf
  /-- Blocks in use stay in use. -/
  marked_subset : marked layout (content before) ⊆ marked layout (content after)
  /-- Bytes that are different are in the bitmap, in the counter, in a block that was free, or they
  are of size and mtime in the record of the directory. -/
  bytes : ∀ x, content after x ≠ content before x →
    layout.bitmapAddress ≤ x ∧ x < layout.dataAddress ∨
    counterAddress layout ≤ x ∧ x < counterAddress layout + 4 ∨
    (∃ a ∈ layout.covered, a ∉ marked layout (content before) ∧ layout.InBlock a x) ∨
    ∃ node y, scan layout before parent = .ok (some node) ∧ node.recordAddress = some y ∧
      y + Record.sizeOffset ≤ x ∧ x < y + Record.nameSizeOffset

/-- An edit that creates no entry makes no names lead further. -/
theorem Evolved.none_of_none {m' : Content} {branches' : Branches} {target names : List String}
    {taken : List Nat} {counted : Nat}
    (evolved : Evolved layout m branches target [] taken counted m' branches')
    (h : branches names = none) : branches' names = none := by
  rcases hbranch : branches' names with _ | branch
  · rfl
  · obtain ⟨name, hname, -⟩ := evolved.created h hbranch
    exact absurd hname List.not_mem_nil

section Evolved

variable {before after : τ} {branches' : Branches} {target : List String} {taken : List Nat}
  {counted : Nat} {branch : Branch}
  (regular : layout.Regular) (hbefore : layout.endAddress ≤ Store.size before)
  (hafter : layout.endAddress ≤ Store.size after)
  (mapped : Mapped layout (content before) branches)
  (evolved : Evolved layout (content before) branches target [] taken counted (content after)
    branches')
include regular hbefore hafter mapped evolved

theorem scan_none_of_evolved {path : String} (h : scan layout before path = .ok none) :
    scan layout after path = .ok none := by
  rw [scan_eq regular hbefore mapped, Except.ok.injEq, Option.map_eq_none_iff] at h
  rw [scan_eq regular hafter evolved.mapped, evolved.none_of_none h]
  rfl

/-- An edit of a directory changes no file. -/
theorem read_of_evolved (h : branches target = some branch) (hkind : branch.node.isDirectory)
    (path : String) (offset length : Nat) :
    read layout after path offset length = read layout before path offset length := by
  rcases hbranch : branches (Path.components path) with _ | other
  · rw [(question_error regular hbefore mapped hbranch).2.2,
      (question_error regular hafter evolved.mapped (evolved.none_of_none hbranch)).2.2]
  by_cases htarget : Path.components path = target
  · -- the directory is still one, and is not read
    obtain rfl := Option.some.inj ((htarget ▸ hbranch).symm.trans h)
    obtain ⟨other', hbranch', hkeeps⟩ := evolved.keeps hbranch
    rw [Volume.read_eq regular hbefore mapped hbranch,
      Volume.read_eq regular hafter evolved.mapped hbranch', hkeeps.isDirectory_eq, if_pos hkind,
      if_pos hkind]
  · obtain ⟨hbranch', halike⟩ := evolved.other htarget hbranch
    rw [Volume.read_eq regular hbefore mapped hbranch,
      Volume.read_eq regular hafter evolved.mapped hbranch']
    unfold Alike at halike
    split at halike
    · rename_i hdirectory
      rw [if_pos hdirectory, if_pos hdirectory]
    · rw [halike]

/-- An edit of a directory that creates no entry changes no listing. -/
theorem listed_of_evolved (path : String) :
    (list layout after path).map namesOf = (list layout before path).map namesOf := by
  rcases hbranch : branches (Path.components path) with _ | other
  · rw [(question_error regular hbefore mapped hbranch).2.1,
      (question_error regular hafter evolved.mapped (evolved.none_of_none hbranch)).2.1]
  by_cases hkind : other.node.isDirectory
  · have hlist := (list_eq regular hbefore mapped hbranch).trans (if_pos hkind)
    obtain ⟨nodes', hlist', hnames⟩ := list_of_evolved regular hbefore hafter mapped evolved hlist
    rw [List.append_nil] at hnames
    rw [hlist, hlist']
    exact congrArg Except.ok (hnames.elim id And.right)
  · obtain ⟨other', hbranch', hkeeps⟩ := evolved.keeps hbranch
    rw [list_eq regular hbefore mapped hbranch, list_eq regular hafter evolved.mapped hbranch',
      hkeeps.isDirectory_eq, if_neg hkind, if_neg hkind]

end Evolved

/-- If space runs out, the directory has got another size and mtime, and a free block may have been
taken for the entry. -/
theorem create_short (sound : Sound layout blockSize size m branches) (now : UInt64)
    (parent name : String) (kind : Kind) :
    (create layout now parent name kind : Edit τ Node).Ends size m fun r m' =>
      r = .error .outOfSpace → ∃ branch newSize taken m₁,
        branches (Path.components parent) = some branch ∧ branch.node.isDirectory ∧
        Extended layout m branches (Path.components parent) newSize now [] taken taken.length m' ∧
        Restamped branch.node m m₁ ∧ Growth layout m₁ [] taken taken.length m' := by
  obtain ⟨⟨regular, hfits, -, -⟩, mapped⟩ := sound
  rcases hrefusal : createRefusal layout m branches parent name with _ | e
  · obtain ⟨branch, h, hcheck, hnew, hlarge⟩ := of_createRefusal hrefusal
    refine (create_ends regular hfits mapped h now kind hcheck hnew hlarge).mono ?_
    rintro r m' (⟨b, place, added, rfl, -⟩ | ⟨taken, rfl, -, -, hextended, m₁, hstamp, growth⟩ |
      ⟨e, rfl, he, -⟩)
    · exact nofun
    · exact fun _ => ⟨branch, _, taken, m₁, h, (of_checkNew hcheck).2, hextended, hstamp, growth⟩
    · exact absurd he (Reliable.not_fault e)
  · refine (create_refused regular hfits mapped now kind hrefusal).mono ?_
    rintro r m' ⟨rfl, rfl⟩ hshort
    cases hshort
    exact (refusal_of_createRefusal hrefusal).elim

/-- Bytes outside of the record and the free blocks are the same. -/
theorem bytes_of_restamped {node : Node} {m₁ m' : Content} {taken : List Nat} {counted : Nat}
    (hstamp : Restamped node m m₁) (growth : Growth layout m₁ [] taken counted m') {x : Nat}
    (hx : m' x ≠ m x) :
    layout.bitmapAddress ≤ x ∧ x < layout.dataAddress ∨
      counterAddress layout ≤ x ∧ x < counterAddress layout + 4 ∨
      (∃ a ∈ taken, layout.InBlock a x) ∨
      ∃ y, node.recordAddress = some y ∧ y + Record.sizeOffset ≤ x ∧
        x < y + Record.nameSizeOffset := by
  by_contra hnone
  simp only [not_or, not_and, not_exists] at hnone
  obtain ⟨hbitmap, hcounter, htaken, hrecord⟩ := hnone
  have hgrowth : m' x = m₁ x := growth.same x ⟨by omega, by omega, htaken⟩
  refine hx (hgrowth.trans (hstamp x fun y hy => ?_))
  have := hrecord y hy
  omega

/-- An entry that space runs out for spares all else. -/
theorem spared_of_short {before : τ} {call : Call} {parent name : String} {kind : Kind}
    (sound : Sound layout blockSize (Store.size before) (content before) branches) (now : UInt64)
    (hcall : call.creation = some (parent, name, kind))
    (hshort : ((call.run layout now).outcome before).1 = .error .outOfSpace) :
    Spared layout parent before ((call.run layout now).outcome before).2 := by
  rw [Call.run_of_creation hcall, Edit.outcome_map] at hshort ⊢
  have hcreate : ((create layout now parent name kind).outcome before).1 = .error .outOfSpace := by
    rcases hresult : ((create layout now parent name kind).outcome before).1 with e | node
    · rw [hresult] at hshort
      exact congrArg Except.error (Except.error.inj hshort)
    · rw [hresult] at hshort
      cases hshort
  dsimp only
  obtain ⟨hsize, hends⟩ := (create_short sound now parent name kind).outcome rfl rfl
  obtain ⟨branch, newSize, taken, m₁, h, hkind, evolved, hstamp, growth⟩ := hends hcreate
  generalize ((create layout now parent name kind).outcome before).2 = after at hsize evolved growth
  obtain ⟨⟨regular, hbefore, -, -⟩, mapped⟩ := sound
  have hafter : layout.endAddress ≤ Store.size after := hsize ▸ hbefore
  refine ⟨fun path node hscan => ?resolves, fun path => ?missing, ?reads, ?listings, ?marks,
    fun x hx => ?bytes⟩
  case resolves =>
    obtain ⟨node', hscan', hkeeps⟩ := scan_of_evolved regular hbefore hafter mapped evolved hscan
    refine ⟨node', hscan', hkeeps.1, hkeeps.2.1, hkeeps.2.2.1, hkeeps.2.2.2, fun hne => ?_⟩
    rw [scan_eq regular hbefore mapped] at hscan
    obtain ⟨other, hother, rfl⟩ := Option.map_eq_some_iff.mp (Except.ok.inj hscan)
    rw [scan_eq regular hafter evolved.mapped, (evolved.other hne hother).1] at hscan'
    exact (Option.some.inj (Except.ok.inj hscan')).symm
  case missing => exact scan_none_of_evolved regular hbefore hafter mapped evolved
  case reads => exact read_of_evolved regular hbefore hafter mapped evolved h hkind
  case listings => exact listed_of_evolved regular hbefore hafter mapped evolved
  case marks =>
    obtain ⟨touched, growth'⟩ := evolved.growth
    exact fun a ha => growth'.marked_mono ha
  case bytes =>
    obtain ⟨touched, growth'⟩ := evolved.growth
    rcases bytes_of_restamped hstamp growth hx with hbitmap | hcounter | ⟨a, ha, hxa⟩ |
      ⟨y, hy, hrecord⟩
    · exact .inl hbitmap
    · exact .inr (.inl hcounter)
    · exact .inr (.inr (.inl ⟨a, growth'.taken_covered a ha, growth'.fresh a ha, hxa⟩))
    · refine .inr (.inr (.inr ⟨branch.node, y, ?_, hy, hrecord⟩))
      rw [scan_eq regular hbefore mapped, h]
      rfl

/-- Calls that fail leave the image as it was if they are rejected, for what is asked or what the
image holds, and if they fail on the way to their node or to the end of its directory, whatever the
image holds. Where space runs out for a new entry, in any state that a run of calls on a new volume
leads to, nothing is lost but free space, and only the directory gets another size and mtime. -/
theorem failures_spare {σ : Type} [Store σ] [Impartial σ] :
    (∀ {store : σ} {blockSize : UInt32} {layout : Layout}, load store blockSize = .ok layout →
      ∀ (now : UInt64) (call : Call) (e : Error),
        ((call.run layout now).outcome store).1 = .error e →
        e.Rejection ∨ call.Meets layout store e → ((call.run layout now).outcome store).2 = store) ∧
    ∀ {blank formatted : τ} {blockSize : UInt32} {layout : Layout},
      format blockSize blank = .ok layout formatted →
      ∀ (calls : List (UInt64 × Call)) (now : UInt64) (call : Call) (parent name : String)
        (kind : Kind), call.creation = some (parent, name, kind) →
        ((call.run layout now).outcome (Call.runAll layout calls formatted).2).1
          = .error .outOfSpace →
        Spared layout parent (Call.runAll layout calls formatted).2
          ((call.run layout now).outcome (Call.runAll layout calls formatted).2).2 := by
  constructor
  · rintro store blockSize layout - now call e he (hrejection | meets)
    · exact Call.run_guarded layout now call store e he hrejection
    · rw [meets.outcome_eq]
  · intro blank formatted blockSize layout hformat calls now call parent name kind hcall hshort
    obtain ⟨hsize, ⟨branches, sound⟩, -⟩ := sound_of_format hformat calls
    rw [← hsize] at sound
    exact spared_of_short sound now hcall hshort

/-- On a volume without a free block, a directory is not written into, and it gets no entry. -/
theorem failures_spare_on_blank :
    ∃ volume before : Memory, format 512 (blank 4195840) = .ok smallest volume ∧
      before = (Call.runAll smallest (overstatingCalls.take 3) volume).2 ∧
      load before 512 = .ok smallest ∧
      ((Call.write "/d" 0 [1].toByteArray).run smallest 4).outcome before
        = (.error (.isDirectory "/d"), before) ∧
      (((Call.createFile "/d/x").run smallest 4).outcome before).1 = .error .outOfSpace ∧
      Spared smallest "/d" before (((Call.createFile "/d/x").run smallest 4).outcome before).2 := by
  obtain ⟨volume, hformat⟩ := format_blank
  obtain ⟨branches, sound, vacant, hfull⟩ := crowded_overstatingCalls hformat
  obtain ⟨regular, fits, sealed, -⟩ := sound.toTallied
  have hload := sealed.load_eq regular fits
  have hcomponents : Path.components "/d" = ["d"] := by decide +kernel
  obtain ⟨directory, h, hkind, -⟩ := id vacant
  -- the directory is there, and is none to write into
  have hrefusal : writeRefusal branches "/d" 0 ([1].toByteArray).size
      = some (.isDirectory "/d") := by
    rw [writeRefusal, hcomponents, h]
    exact if_pos hkind
  obtain ⟨-, hwrite, -⟩ :=
    (write_refused regular fits sound.mapped 4 hrefusal).outcome rfl rfl
  have hrejected : (((Call.write "/d" 0 [1].toByteArray).run smallest 4).outcome
      (Call.runAll smallest (overstatingCalls.take 3) volume).2).1
        = .error (.isDirectory "/d") := by
    rw [Call.run, Edit.outcome_map, hwrite]
    rfl
  obtain ⟨branches', step, -⟩ := Call.outcome_step sound 4 (.createFile "/d/x")
  have hshort := (vacant.createFile hfull step).1
  refine ⟨volume, _, hformat, rfl, hload, Prod.ext hrejected ?_, hshort, ?_⟩
  · exact (failures_spare (τ := Memory)).1 hload 4 _ _ hrejected (.inl trivial)
  · exact (failures_spare (σ := Memory)).2 hformat (overstatingCalls.take 3) 4 _ "/d" "x" .file
      (by decide +kernel) hshort

end Short

end ChainFs.Volume
