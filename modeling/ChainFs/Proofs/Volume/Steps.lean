import ChainFs.Proofs.Volume.Runs

/-!
# Steps of a volume

All that a call can do to a volume whose store does not fail, told once for every property that runs
of calls keep:

What an edit may end in was stated for faithful stores, with an end for every write that may fail.
On a reliable store only few ends are left: a call is refused, or does what was asked, or runs out
of space at one of two points. They are the constructors of `Volume.Step`, and counts, sizes and
owners are kept by a case analysis of it, in which no call is opened again.

* `Volume.Step` — the ways in which a call ends, each with the branches that it leaves;
* `Volume.Call.run_steps` — a call ends in one of these ways;
* `Volume.Step.evolved` — each of them is an edit that counts the blocks it takes.
-/

namespace ChainFs.Volume

open Store Bitmap Chain Directory

variable {layout : Layout} {m m' : Content} {size : Nat} {blockSize : UInt32}
  {branches branches' : Branches} {now : UInt64} {call : Call} {r : Except Error Reply}

/-- Whether a call has nothing to change: it asks, or it writes no data. -/
def Call.Idle : Call → Prop
  | .write _ _ data => data.size = 0
  | .create .. | .makeDirectory _ | .createFile _ => False
  | _ => True

/-- The path of the directory, and the name and the kind of the entry that a call creates. -/
def Call.creation : Call → Option (String × String × Kind)
  | .create parent name kind => some (parent, name, kind)
  | .makeDirectory path => (Path.splitLast path).toOption.map fun (parent, name) =>
    (parent, name, .directory)
  | .createFile path => (Path.splitLast path).toOption.map fun (parent, name) =>
    (parent, name, .file)
  | _ => none

/-- The branches after one of them got another size and mtime and the blocks `added` behind its
chain. -/
abbrev Branches.grow (branches : Branches) (names : List String) (size : UInt32) (mtime : UInt64)
    (added : List Nat) : Branches :=
  branches.modify names (Branch.extend added ∘ Branch.stamp size mtime)

/-- The branches after a directory got a new entry, whose first block is `b`, and the blocks `added`
behind its chain. -/
abbrev Branches.adopt (branches : Branches) (names : List String) (size : UInt32) (mtime : UInt64)
    (added : List Nat) (name : String) (kind : Kind) (b place : Nat) : Branches :=
  Function.update (branches.grow names size mtime added) (names ++ [name])
    (some ⟨⟨⟨kind, b, 0, mtime, name⟩, some place⟩, [b]⟩)

/-- The ways in which a call ends that starts from branches: its answer, and the content and the
branches that it leaves. -/
inductive Step (layout : Layout) (m : Content) (branches : Branches) (now : UInt64) :
    Call → Except Error Reply → Content → Branches → Prop
  | idle {call : Call} {reply : Reply} (hidle : call.Idle) :
    Step layout m branches now call (.ok reply) m branches
  | refused {call : Call} {e : Error} (hrefusal : e.Refusal)
      (hwrite : ∀ path offset data, call = .write path offset data →
        writeRefusal branches path offset data.size = some e)
      (hcreate : ∀ parent name kind, call.creation = some (parent, name, kind) →
        createRefusal layout m branches parent name = some e) :
    Step layout m branches now call (.error e) m branches
  /-- A file was written. Its chain went on with as many blocks as the data reaches beyond it. -/
  | written {path : String} {offset : Nat} {data : ByteArray} {branch : Branch} {newSize : UInt32}
      {added : List Nat} {m' : Content}
      (h : branches (Path.components path) = some branch) (hfile : ¬ branch.node.isDirectory)
      (hdata : 0 < data.size) (hsize : grownSize branch.node offset data.size = .ok newSize)
      (hextended : Extended layout m branches (Path.components path) newSize now added added
        added.length m')
      (hlength : added.length = blocksFor layout (offset + data.size) - branch.chain.length) :
    Step layout m branches now (.write path offset data) (.ok (.written data.size)) m'
      (branches.grow (Path.components path) newSize now added)
  /-- Space ran out while a file was written. All free blocks were taken, but there were too few. -/
  | writtenShort {path : String} {offset : Nat} {data : ByteArray} {branch : Branch}
      {newSize : UInt32} {added : List Nat} {m' : Content}
      (h : branches (Path.components path) = some branch) (hfile : ¬ branch.node.isDirectory)
      (hsize : grownSize branch.node offset data.size = .ok newSize)
      (hextended : Extended layout m branches (Path.components path) newSize now added added
        added.length m')
      (hfull : marked layout m' = layout.covered)
      (hshort : branch.chain.length + added.length < blocksFor layout (offset + data.size)) :
    Step layout m branches now (.write path offset data) (.error .outOfSpace) m'
      (branches.grow (Path.components path) newSize now added)
  /-- A directory got a new entry, with another block for the record if its last one had no room. -/
  | created {call : Call} {parent name : String} {branch : Branch} {kind : Kind} {b place : Nat}
      {added : List Nat} {m' : Content} (hcall : call.creation = some (parent, name, kind))
      (h : branches (Path.components parent) = some branch) (hkind : branch.node.isDirectory)
      (hnew : name ∉ entryNames layout m branch.chain)
      (hlarge : grownExtent layout m branch name < 2 ^ 32)
      (hevolved : Evolved layout m branches (Path.components parent) [name] (b :: added)
        (added.length + 1) m' (branches.adopt (Path.components parent)
          (UInt32.ofNat (grownExtent layout m branch name)) now added name kind b place))
      (hlength : ∀ last, branch.chain.getLast? = some last → added.length =
        if vacantIn layout m last Cursor.firstRecord + (Record.headerSize + name.utf8ByteSize)
          ≤ layout.blockSize then 0 else 1) :
    Step layout m branches now call
      (.ok (.created ⟨⟨kind, b, 0, now, name⟩, some place⟩)) m'
      (branches.adopt (Path.components parent)
        (UInt32.ofNat (grownExtent layout m branch name)) now added name kind b place)
  /-- Space ran out for a new entry. The directory has its new size already, and the block that the
  entry took is not given back. -/
  | createdShort {call : Call} {parent name : String} {branch : Branch} {kind : Kind}
      {taken : List Nat} {m' : Content} (hcall : call.creation = some (parent, name, kind))
      (h : branches (Path.components parent) = some branch) (hkind : branch.node.isDirectory)
      (hlarge : grownExtent layout m branch name < 2 ^ 32)
      (hextended : Extended layout m branches (Path.components parent)
        (UInt32.ofNat (grownExtent layout m branch name)) now [] taken taken.length m')
      (hfull : marked layout m' = layout.covered) (hone : taken.length ≤ 1) :
    Step layout m branches now call (.error .outOfSpace) m'
      (branches.grow (Path.components parent)
        (UInt32.ofNat (grownExtent layout m branch name)) now [])

/-- A step is an edit that counts all the blocks it takes. -/
theorem Step.evolved (step : Step layout m branches now call r m' branches')
    (mapped : Mapped layout m branches) :
    ∃ target news taken,
      Evolved layout m branches target news taken taken.length m' branches' := by
  cases step with
  | idle | refused => exact ⟨[], [], [], .refl mapped []⟩
  | written h hfile hdata hsize hextended => exact ⟨_, _, _, hextended⟩
  | writtenShort h hfile hsize hextended => exact ⟨_, _, _, hextended⟩
  | created hcall h hkind hnew hlarge hevolved => exact ⟨_, _, _, hevolved⟩
  | createdShort hcall h hkind hlarge hextended => exact ⟨_, _, _, hextended⟩

theorem Step.sound (step : Step layout m branches now call r m' branches')
    (sound : Sound layout blockSize size m branches) :
    Sound layout blockSize size m' branches' := by
  obtain ⟨target, news, taken, hevolved⟩ := step.evolved sound.mapped
  exact sound.of_evolved hevolved

/-! ## Every call is a step -/

/-- A question changes nothing, and it fails only by a refusal. -/
theorem ask_steps {σ α : Type} [Store σ] [Faithful σ] {question : σ → Except Error α}
    {reply : α → Reply} (now : UInt64) (call : Call) (hidle : call.Idle)
    (hwrite : ∀ path offset data, call ≠ .write path offset data) (hcreate : call.creation = none)
    (h : ∀ store, Store.size store = size → content store = m →
      ∀ e, question store = .error e → e.Refusal) :
    (reply <$> Edit.ask question).Ends size m fun r m' =>
      ∃ branches', Step layout m branches now call r m' branches' := by
  refine .map (.ask fun store hsize hcontent => ⟨branches, ?_⟩)
  rcases hquestion : question store with e | a
  · exact .refused (h store hsize hcontent e hquestion)
      (fun path offset data hcall => absurd hcall (hwrite path offset data))
      (fun parent name kind hcall => by rw [hcreate] at hcall; cases hcall)
  · exact .idle hidle

section Reliable

variable {τ : Type} [Store τ] [Reliable τ] (sound : Sound layout blockSize size m branches)
include sound

theorem write_steps (now : UInt64) (path : String) (offset : Nat) (data : ByteArray) :
    (write layout now path offset data : Edit τ Nat).Ends size m fun r m' => ∃ branches',
      Step layout m branches now (.write path offset data) (r.map .written) m' branches' := by
  obtain ⟨⟨regular, hfits, -, -⟩, mapped⟩ := sound
  rcases hrefusal : writeRefusal branches path offset data.size with _ | e
  · obtain ⟨branch, h, hfile, hlength⟩ := of_writeRefusal hrefusal
    by_cases hdata : data.size = 0
    · refine (write_empty regular hfits mapped now h hfile hdata).mono ?_
      rintro r m' ⟨rfl, rfl⟩
      exact ⟨branches, .idle hdata⟩
    obtain ⟨newSize, hnewSize⟩ := hlength.resolve_left hdata
    refine (write_ends regular hfits mapped h hfile now (by omega) hnewSize).mono ?_
    rintro r m' (⟨added, rfl, hextended, -, hend, hleast⟩ |
      ⟨added, rfl, hextended, hfull, hshort, -⟩ | ⟨e, rfl, he, -⟩)
    · exact ⟨_, .written h hfile (by omega) hnewSize hextended
        (length_added regular hend hleast)⟩
    · refine ⟨_, .writtenShort h hfile hnewSize hextended hfull ?_⟩
      rw [← List.length_append]
      exact lt_blocksFor regular hshort
    · exact absurd he (Reliable.not_fault e)
  · refine (write_refused regular hfits mapped now hrefusal).mono ?_
    rintro r m' ⟨rfl, rfl⟩
    refine ⟨branches, .refused (refusal_of_writeRefusal hrefusal) ?_ ?_⟩
    · rintro path offset data hcall
      cases hcall
      exact hrefusal
    · rintro parent name kind hcall
      cases hcall

theorem create_steps (now : UInt64) {call : Call} {parent name : String} {kind : Kind}
    (hcall : call.creation = some (parent, name, kind)) :
    (create layout now parent name kind : Edit τ Node).Ends size m fun r m' =>
      ∃ branches', Step layout m branches now call (r.map .created) m' branches' := by
  obtain ⟨⟨regular, hfits, -, -⟩, mapped⟩ := sound
  rcases hrefusal : createRefusal layout m branches parent name with _ | e
  · obtain ⟨branch, h, hcheck, hnew, hlarge⟩ := of_createRefusal hrefusal
    have hkind := (of_checkNew hcheck).2
    refine (create_ends regular hfits mapped h now kind hcheck hnew hlarge).mono ?_
    rintro r m' (⟨b, place, added, rfl, hevolved, hlength⟩ |
      ⟨taken, rfl, hfull, hone, hextended, -⟩ | ⟨e, rfl, he, -⟩)
    · exact ⟨_, .created hcall h hkind hnew hlarge hevolved hlength⟩
    · exact ⟨_, .createdShort hcall h hkind hlarge hextended hfull hone⟩
    · exact absurd he (Reliable.not_fault e)
  · refine (create_refused regular hfits mapped now kind hrefusal).mono ?_
    rintro r m' ⟨rfl, rfl⟩
    refine ⟨branches, .refused (refusal_of_createRefusal hrefusal) ?_ ?_⟩
    · rintro path offset data rfl
      cases hcall
    · rintro parent' name' kind' hcall'
      cases hcall.symm.trans hcall'
      exact hrefusal

theorem createAt_steps (now : UInt64) {call : Call} {path : String} {kind : Kind}
    (hwrite : ∀ path offset data, call ≠ .write path offset data)
    (hcall : call.creation = (Path.splitLast path).toOption.map fun (parent, name) =>
      (parent, name, kind)) :
    (createAt layout now path kind : Edit τ Node).Ends size m fun r m' =>
      ∃ branches', Step layout m branches now call (r.map .created) m' branches' := by
  rcases hsplit : Path.splitLast path with e | ⟨parent, name⟩
  · rw [hsplit] at hcall
    refine .ofExcept_bind_error hsplit ⟨branches, .refused (refusal_of_splitLast hsplit) ?_ ?_⟩
    · exact fun path offset data hcall => absurd hcall (hwrite path offset data)
    · rintro parent name kind hcall'
      cases hcall.symm.trans hcall'
  · rw [hsplit] at hcall
    exact .ofExcept_bind hsplit (create_steps sound now hcall)

/-- A call ends in one of the ways of a step. -/
theorem Call.run_steps (now : UInt64) (call : Call) :
    (call.run layout now : Edit τ Reply).Ends size m fun r m' =>
      ∃ branches', Step layout m branches now call r m' branches' := by
  obtain ⟨⟨regular, hfits, sealed, -⟩, mapped⟩ := id sound
  cases call with
  | scan path =>
    refine ask_steps now _ trivial (by simp) rfl ?_
    rintro store rfl rfl e herror
    rw [scan_eq regular hfits mapped] at herror
    cases herror
  | lookup path =>
    refine ask_steps now _ trivial (by simp) rfl ?_
    rintro store rfl rfl e herror
    exact lookup_error regular hfits mapped herror
  | list path =>
    refine ask_steps now _ trivial (by simp) rfl ?_
    rintro store rfl rfl e herror
    exact list_error regular hfits mapped herror
  | read path offset length =>
    refine ask_steps now _ trivial (by simp) rfl ?_
    rintro store rfl rfl e herror
    exact Volume.read_error regular hfits mapped herror
  | write path offset data => exact .map (write_steps sound now path offset data)
  | create parent name kind => exact .map (create_steps sound now rfl)
  | makeDirectory path => exact .map (createAt_steps sound now (by simp) rfl)
  | createFile path => exact .map (createAt_steps sound now (by simp) rfl)
  | usage =>
    refine ask_steps now _ trivial (by simp) rfl ?_
    rintro store rfl rfl e herror
    rw [sealed.usage_eq regular hfits] at herror
    cases herror

end Reliable

/-! ## What comes of calls that are not refused -/

theorem Call.Idle.creation_eq (h : call.Idle) : call.creation = none := by
  cases call with
  | create | makeDirectory | createFile => exact h.elim
  | _ => rfl

namespace Step

variable {branch : Branch}

/-- A write of data into a file that does not get too large for its size: it goes on as far as it
must, or as far as there is space. -/
theorem of_write {path : String} {offset : Nat} {data : ByteArray} {newSize : UInt32}
    (step : Step layout m branches now (.write path offset data) r m' branches')
    (h : branches (Path.components path) = some branch) (hfile : ¬ branch.node.isDirectory)
    (hdata : 0 < data.size) (hsize : grownSize branch.node offset data.size = .ok newSize) :
    ∃ added, branches' = branches.grow (Path.components path) newSize now added ∧
      Extended layout m branches (Path.components path) newSize now added added added.length m' ∧
      (r = .ok (.written data.size) ∧
          added.length = blocksFor layout (offset + data.size) - branch.chain.length ∨
        r = .error .outOfSpace ∧ marked layout m' = layout.covered ∧
          branch.chain.length + added.length < blocksFor layout (offset + data.size)) := by
  cases step with
  | idle hidle => exact absurd hidle (Nat.ne_of_gt hdata)
  | refused hrefusal hwrite =>
    rcases writeRefusal_cases (hwrite path offset data rfl) with ⟨hnone, -⟩ |
      ⟨branch', h', ⟨hkind, -⟩ | ⟨-, -, htoo⟩⟩
    · cases h.symm.trans hnone
    all_goals obtain rfl := Option.some.inj (h.symm.trans h')
    · exact absurd hkind hfile
    · cases hsize.symm.trans htoo
  | written h' hfile' hdata' hsize' hextended hlength =>
    obtain rfl := Option.some.inj (h.symm.trans h')
    obtain rfl := Except.ok.inj (hsize.symm.trans hsize')
    exact ⟨_, rfl, hextended, .inl ⟨rfl, hlength⟩⟩
  | writtenShort h' hfile' hsize' hextended hfull hshort =>
    obtain rfl := Option.some.inj (h.symm.trans h')
    obtain rfl := Except.ok.inj (hsize.symm.trans hsize')
    exact ⟨_, rfl, hextended, .inr ⟨rfl, hfull, hshort⟩⟩
  | created hcall => cases hcall
  | createdShort hcall => cases hcall

/-- A new entry with a valid name in a directory that does not get too large for its size: it is
created, or space runs out. -/
theorem of_creation {parent name : String} {kind : Kind}
    (step : Step layout m branches now call r m' branches')
    (hcall : call.creation = some (parent, name, kind))
    (h : branches (Path.components parent) = some branch)
    (hcheck : checkNew branch.node name = .ok ())
    (hnew : name ∉ entryNames layout m branch.chain)
    (hlarge : grownExtent layout m branch name < 2 ^ 32) :
    (∃ b place added, r = .ok (.created ⟨⟨kind, b, 0, now, name⟩, some place⟩) ∧
      branches' = branches.adopt (Path.components parent)
        (UInt32.ofNat (grownExtent layout m branch name)) now added name kind b place ∧
      Evolved layout m branches (Path.components parent) [name] (b :: added) (added.length + 1) m'
        branches' ∧
      ∀ last, branch.chain.getLast? = some last → added.length =
        if vacantIn layout m last Cursor.firstRecord + (Record.headerSize + name.utf8ByteSize)
          ≤ layout.blockSize then 0 else 1) ∨
    ∃ taken, r = .error .outOfSpace ∧
      branches' = branches.grow (Path.components parent)
        (UInt32.ofNat (grownExtent layout m branch name)) now [] ∧
      Evolved layout m branches (Path.components parent) [] taken taken.length m' branches' ∧
      marked layout m' = layout.covered ∧ taken.length ≤ 1 := by
  cases step with
  | idle hidle =>
    rw [hidle.creation_eq] at hcall
    cases hcall
  | refused hrefusal hwrite hcreate =>
    rcases createRefusal_cases (hcreate parent name kind hcall) with ⟨hnone, -⟩ |
      ⟨branch', h', hinvalid | ⟨-, ⟨hold, -⟩ | ⟨-, htoo, -⟩⟩⟩
    · cases h.symm.trans hnone
    all_goals obtain rfl := Option.some.inj (h.symm.trans h')
    · cases hcheck.symm.trans hinvalid
    · exact absurd hold hnew
    · exact absurd hlarge (Nat.not_lt.mpr htoo)
  | written | writtenShort => cases hcall
  | created hcall' h' hkind hnew' hlarge' hevolved hlength =>
    obtain ⟨rfl, rfl, rfl⟩ : _ ∧ _ ∧ _ := by simpa using hcall.symm.trans hcall'
    obtain rfl := Option.some.inj (h.symm.trans h')
    exact .inl ⟨_, _, _, rfl, rfl, hevolved, hlength⟩
  | createdShort hcall' h' hkind hlarge' hextended hfull hone =>
    obtain ⟨rfl, rfl, rfl⟩ : _ ∧ _ ∧ _ := by simpa using hcall.symm.trans hcall'
    obtain rfl := Option.some.inj (h.symm.trans h')
    exact .inr ⟨_, rfl, rfl, hextended, hfull, hone⟩

/-- Where two blocks are free, space does not run out for it. -/
theorem of_creation_of_space {parent name : String} {kind : Kind}
    (step : Step layout m branches now call r m' branches') (regular : layout.Regular)
    (hcall : call.creation = some (parent, name, kind))
    (h : branches (Path.components parent) = some branch)
    (hcheck : checkNew branch.node name = .ok ())
    (hnew : name ∉ entryNames layout m branch.chain)
    (hlarge : grownExtent layout m branch name < 2 ^ 32)
    (hspace : (marked layout m).card + 2 ≤ layout.bitmapBits) :
    ∃ b place added, branches' = branches.adopt (Path.components parent)
        (UInt32.ofNat (grownExtent layout m branch name)) now added name kind b place ∧
      Evolved layout m branches (Path.components parent) [name] (b :: added) (added.length + 1) m'
        branches' ∧
      ∀ last, branch.chain.getLast? = some last → added.length =
        if vacantIn layout m last Cursor.firstRecord + (Record.headerSize + name.utf8ByteSize)
          ≤ layout.blockSize then 0 else 1 := by
  rcases step.of_creation hcall h hcheck hnew hlarge with
    ⟨b, place, added, -, hcreated⟩ | ⟨taken, -, -, hevolved, hfull, hone⟩
  · exact ⟨b, place, added, hcreated⟩
  · obtain ⟨touched, growth⟩ := hevolved.growth
    have hcard := growth.card_marked
    rw [hfull, regular.card_covered] at hcard
    omega

/-- A branch that was not there before was created by the call. -/
theorem created_of_new {names : List String}
    (step : Step layout m branches now call r m' branches') (hold : branches names = none)
    (hnew : branches' names = some branch) : ∃ node, r = .ok (.created node) := by
  cases step with
  | idle | refused => cases hold.symm.trans hnew
  | written | writtenShort | createdShort => cases (Branches.modify_none hold).symm.trans hnew
  | created => exact ⟨_, rfl⟩

/-- The first entry of a new volume is created, with its record in the block of the root. -/
theorem of_first_creation (formatted : Formatted layout blockSize size m) {parent name : String}
    {kind : Kind} (step : Step layout m (rootOnly layout) now call r m' branches')
    (hcall : call.creation = some (parent, name, kind)) (hparent : Path.components parent = [])
    (hvalid : validateName name = .ok ()) :
    ∃ b place, branches' = Function.update (rootOnly layout) [name]
        (some ⟨⟨⟨kind, b, 0, now, name⟩, some place⟩, [b]⟩) ∧
      Evolved layout m (rootOnly layout) [] [name] [b] 1 m' branches' := by
  have regular := formatted.regular
  have hroot : rootOnly layout [] = some ⟨Node.root layout, [layout.dataAddress]⟩ := rfl
  obtain ⟨hentries, hvacant⟩ := formatted.empty
  have hname := (validName_of_ok hvalid).size_le
  have hextent : grownExtent layout m ⟨Node.root layout, [layout.dataAddress]⟩ name
      = 18 + name.utf8ByteSize := by
    rw [grownExtent, hentries]
    exact Nat.zero_add _
  have hcheck : checkNew (Node.root layout) name = .ok () := by
    rw [checkNew, hvalid]
    rfl
  have hnew : name ∉ entryNames layout m [layout.dataAddress] := by
    rw [entryNames, hentries]
    exact List.not_mem_nil
  have hlarge : 18 + name.utf8ByteSize < 2 ^ 32 := by
    rw [Record.maxNameSize] at hname
    omega
  have hspace : (marked layout m).card + 2 ≤ layout.bitmapBits := by
    have hbits := regular.bitmapBits_ge
    have hge := regular.blockSize_ge
    rw [formatted.marked_eq, Finset.card_singleton]
    omega
  obtain ⟨b, place, added, hbranches, hevolved, hlength⟩ := step.of_creation_of_space regular hcall
    (hparent ▸ hroot) hcheck hnew (hextent ▸ hlarge) hspace
  have hadded : added.length = 0 := by
    rw [hlength layout.dataAddress rfl, hvacant, if_pos]
    exact regular.record_le (Nat.add_le_add_left hname _)
  obtain rfl := List.eq_nil_of_length_eq_zero hadded
  rw [hparent] at hbranches hevolved
  refine ⟨b, place, ?_, hevolved⟩
  rw [hbranches, Branches.adopt, Branches.grow, Branches.modify_eq_self hroot]
  · rfl
  · rw [Branch.extend_nil]
    rfl

end Step

/-- What a call does to a store in order: it takes a step and leaves a store in order. -/
theorem Call.outcome_step {τ : Type} [Store τ] [Reliable τ] {store : τ}
    (sound : Sound layout blockSize (Store.size store) (content store) branches) (now : UInt64)
    (call : Call) :
    ∃ branches', Step layout (content store) branches now call
        ((call.run layout now).outcome store).1
        (content ((call.run layout now).outcome store).2) branches' ∧
      Sound layout blockSize (Store.size ((call.run layout now).outcome store).2)
        (content ((call.run layout now).outcome store).2) branches' := by
  obtain ⟨hsize, branches', step⟩ := (Call.run_steps sound now call).outcome rfl rfl
  exact ⟨branches', step, hsize ▸ step.sound sound⟩

end ChainFs.Volume
