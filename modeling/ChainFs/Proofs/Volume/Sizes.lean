import ChainFs.Proofs.Volume.Steps

/-!
# The sizes of directories

The root has no record, so its size is added up from its entries whenever it is asked for. A
subdirectory's size stands in its record, and an entry is counted there before it has its blocks.

* `Volume.overstated` — the number of bytes that the record of a directory says too much;
* `Volume.Sized` — the sizes in the records are the entries' lengths and what is overstated;
* `Volume.Sized.step` — a call leaves it so;
* `Volume.directory_sizes` — what is looked up after a run is what is listed and what is overstated.

Of a run in which space never ran out for an entry nothing is overstated. Otherwise what is
overstated can be told from the calls and the answers, by `Volume.overstated`, for the entry that
failed last in each directory is the one that is still counted there.
-/

namespace ChainFs.Volume

open Store Bitmap Chain Directory

/-- What a call makes of the surplus in the records of directories: a new entry for which space runs
out is counted in the record of its directory, in place of any that was counted so before. -/
def Call.overstate (call : Call) (answer : Except Error Reply) (surplus : List String → Nat) :
    List String → Nat :=
  match call.creation, answer with
  | some (parent, name, _), .error .outOfSpace =>
    Function.update surplus (Path.components parent) (Record.headerSize + name.utf8ByteSize)
  | _, _ => surplus

/-- The number of bytes that the record of a directory says too much after a run of calls. -/
def overstated (calls : List (UInt64 × Call)) (answers : List (Except Error Reply)) :
    List String → Nat :=
  (calls.zip answers).foldl (fun surplus (timed, answer) => timed.2.overstate answer surplus)
    fun _ => 0

section Contents

variable {layout : Layout} {m m' : Content} {blockSize : UInt32} {size : Nat}
  {branches branches' : Branches} {names : List String} {branch branch' : Branch} {now : UInt64}
  {call : Call} {r : Except Error Reply} {surplus surplus' : List String → Nat}

theorem Call.overstate_of_ne (h : r ≠ .error .outOfSpace) : call.overstate r surplus = surplus := by
  unfold Call.overstate
  split
  · exact absurd rfl h
  · rfl

theorem Call.overstate_of_none (h : call.creation = none) : call.overstate r surplus = surplus := by
  unfold Call.overstate
  rw [h]

theorem Call.overstate_of_short {parent name : String} {kind : Kind}
    (h : call.creation = some (parent, name, kind)) :
    call.overstate (.error .outOfSpace) surplus = Function.update surplus (Path.components parent)
      (Record.headerSize + name.utf8ByteSize) := by
  unfold Call.overstate
  rw [h]

/-- Where entries are alike they take the same room. -/
theorem Alike.extent_eq (alike : Alike layout m m' branch) (hkind : branch.node.isDirectory) :
    extent (entries layout m' branch.chain) = extent (entries layout m branch.chain) := by
  rw [Alike, if_pos hkind, entryNames, entryNames] at alike
  rw [Volume.extent_eq, alike, ← Volume.extent_eq]

/-! ## Records that say what directories hold -/

/-- The sizes in the records of directories are the lengths of their entries and a surplus. Where
there is a surplus, no block is free. -/
structure Sized (layout : Layout) (m : Content) (branches : Branches)
    (surplus : List String → Nat) : Prop where
  recorded : ∀ {names branch}, branches names = some branch → names ≠ [] →
    branch.node.isDirectory →
    branch.node.record.size.toNat = extent (entries layout m branch.chain) + surplus names
  full : ∀ {names}, surplus names ≠ 0 → marked layout m = layout.covered

namespace Sized

variable {target news : List String} {taken : List Nat} {counted : Nat}

/-- An edit leaves the sizes of the directories that it does not work on. -/
theorem recorded_of_other (sized : Sized layout m branches surplus)
    (evolved : Evolved layout m branches target news taken counted m' branches')
    (h : branches' names = some branch) (hne : names ≠ target)
    (hnew : ∀ name ∈ news, names ≠ target ++ [name]) (hroot : names ≠ [])
    (hkind : branch.node.isDirectory) :
    branch.node.record.size.toNat = extent (entries layout m' branch.chain) + surplus names := by
  rcases hold : branches names with _ | old
  · obtain ⟨name, hname, hnames⟩ := evolved.created hold h
    exact absurd hnames (hnew name hname)
  · obtain ⟨hsame, alike⟩ := evolved.other hne hold
    obtain rfl := Option.some.inj (h.symm.trans hsame)
    rw [alike.extent_eq hkind, sized.recorded hold hroot hkind]

/-- The sizes of directories do not change with a file. -/
theorem of_file (sized : Sized layout m branches surplus) {size : UInt32} {added : List Nat}
    (hextended : Extended layout m branches names size now added added added.length m')
    (h : branches names = some branch) (hfile : ¬ branch.node.isDirectory) :
    Sized layout m' (branches.grow names size now added) surplus where
  recorded {names' branch'} h' hroot hkind := by
    refine sized.recorded_of_other hextended h' ?_ (by simp) hroot hkind
    rintro rfl
    obtain ⟨grown, hgrown, hkeeps⟩ := hextended.keeps h
    obtain rfl := Option.some.inj (h'.symm.trans hgrown)
    exact hfile (hkeeps.isDirectory_eq ▸ hkind)
  full hsurplus := by
    obtain ⟨touched, growth⟩ := hextended.growth
    exact growth.marked_full (sized.full hsurplus)

/-- A new entry is counted in the record of its directory, and it has no entries itself. -/
theorem of_created (sized : Sized layout m branches surplus) (mapped : Mapped layout m branches)
    {name : String} {kind : Kind} {b place : Nat} {added : List Nat}
    (h : branches target = some branch) (hkind : branch.node.isDirectory)
    (hnew : name ∉ entryNames layout m branch.chain)
    (hlarge : grownExtent layout m branch name < 2 ^ 32)
    (hevolved : Evolved layout m branches target [name] (b :: added) counted m'
      (branches.adopt target (UInt32.ofNat (grownExtent layout m branch name)) now added name kind
        b place)) :
    Sized layout m' (branches.adopt target (UInt32.ofNat (grownExtent layout m branch name)) now
      added name kind b place) surplus := by
  obtain ⟨touched, growth⟩ := hevolved.growth
  have hnone := mapped.none_of_new h hnew
  have hself : branches.adopt target (UInt32.ofNat (grownExtent layout m branch name)) now added
      name kind b place target = some ((Branch.extend added ∘
        Branch.stamp (UInt32.ofNat (grownExtent layout m branch name)) now) branch) := by
    rw [Branches.adopt, Function.update_of_ne (by simp), Branches.grow, Branches.modify_self h]
  have hnoSurplus : ∀ names, surplus names = 0 := by
    -- the entry found a free block
    intro names
    by_contra hsurplus
    have hb := List.mem_cons_self (a := b) (l := added)
    exact growth.fresh b hb (sized.full hsurplus ▸ growth.taken_covered b hb)
  refine ⟨fun {names branch'} h' hroot hkind' => ?_, fun {names} hsurplus =>
    absurd (hnoSurplus names) hsurplus⟩
  by_cases hchild : names = target ++ [name]
  · subst hchild
    have hentries := hevolved.mapped.entries_eq_nil h' hkind' fun next => by
      rw [Branches.adopt, Function.update_of_ne (by simp), Branches.grow,
        Branches.modify_none (mapped.none_of_none hnone _)]
    rw [Branches.adopt, Function.update_self] at h'
    obtain rfl := Option.some.inj h'
    rw [hentries, hnoSurplus]
    rfl
  by_cases hnames : names = target
  · subst hnames
    obtain rfl := Option.some.inj (h'.symm.trans hself)
    have hlisting := hevolved.listing h hself hkind
    obtain ⟨x, hx⟩ := mapped.exists_record h hroot
    rw [extent_eq, ← entryNames, hlisting, List.map_append, List.sum_append, entryNames,
      ← extent_eq, hnoSurplus, Function.comp_apply, Branch.node_extend, Branch.stamp_of_record hx]
    exact UInt32.toNat_ofNat_of_lt' hlarge
  · exact sized.recorded_of_other hevolved h' hnames (by simpa using hchild) hroot hkind'

/-- An entry for which space runs out is counted in the record of its directory all the same. -/
theorem of_createdShort (sized : Sized layout m branches surplus)
    (mapped : Mapped layout m branches) {name : String} (h : branches target = some branch)
    (hkind : branch.node.isDirectory)
    (hlarge : grownExtent layout m branch name < 2 ^ 32)
    (hextended : Extended layout m branches target
      (UInt32.ofNat (grownExtent layout m branch name)) now [] taken counted m')
    (hfull : marked layout m' = layout.covered) :
    Sized layout m' (branches.grow target (UInt32.ofNat (grownExtent layout m branch name)) now [])
      (Function.update surplus target (Record.headerSize + name.utf8ByteSize)) := by
  refine ⟨fun {names branch'} h' hroot hkind' => ?_, fun _ => hfull⟩
  by_cases hnames : names = target
  · subst hnames
    obtain rfl := Option.some.inj (h'.symm.trans (Branches.modify_self h))
    have hlisting := hextended.listing h h' hkind
    obtain ⟨x, hx⟩ := mapped.exists_record h hroot
    rw [extent_eq, ← entryNames, hlisting, List.append_nil, entryNames, ← extent_eq,
      Function.update_self, Function.comp_apply, Branch.node_extend, Branch.stamp_of_record hx]
    exact UInt32.toNat_ofNat_of_lt' hlarge
  · rw [Function.update_of_ne hnames]
    exact sized.recorded_of_other hextended h' hnames (by simp) hroot hkind'

/-- A call leaves the sizes of directories too large by what it overstates. -/
theorem step (sized : Sized layout m branches surplus)
    (step : Step layout m branches now call r m' branches') (mapped : Mapped layout m branches) :
    Sized layout m' branches' (call.overstate r surplus) := by
  cases step with
  | idle => rwa [Call.overstate_of_ne (by simp)]
  | refused hrefusal =>
    rwa [Call.overstate_of_ne]
    rintro ⟨⟩
    exact hrefusal
  | written h hfile hdata hsize hextended =>
    rw [Call.overstate_of_none rfl]
    exact sized.of_file hextended h hfile
  | writtenShort h hfile hsize hextended =>
    rw [Call.overstate_of_none rfl]
    exact sized.of_file hextended h hfile
  | created hcall h hkind hnew hlarge hevolved =>
    rw [Call.overstate_of_ne (by simp)]
    exact sized.of_created mapped h hkind hnew hlarge hevolved
  | createdShort hcall h hkind hlarge hextended hfull =>
    rw [Call.overstate_of_short hcall]
    exact sized.of_createdShort mapped h hkind hlarge hextended hfull

end Sized

/-- A new volume has no subdirectory. -/
theorem sized_rootOnly (layout : Layout) (m : Content) :
    Sized layout m (rootOnly layout) fun _ => 0 where
  recorded h hroot _ := absurd (of_rootOnly h).1 hroot
  full h := absurd rfl h

end Contents

/-! ## Runs -/

section Reliable

variable {τ : Type} [Store τ] [Reliable τ] {layout : Layout} {blockSize : UInt32}
  {branches : Branches} {surplus : List String → Nat}

/-- What is looked up of a directory is how long the entries are that it lists, and its surplus. -/
theorem Sized.lookup_of_list {store : τ} (sized : Sized layout (content store) branches surplus)
    (sound : Sound layout blockSize (Store.size store) (content store) branches) {path : String}
    {nodes : Array Node} (hlist : list layout store path = .ok nodes) :
    ∃ stat, lookup layout store path = .ok stat ∧ stat.kind = .directory ∧
      stat.size = (nodes.toList.map (·.record.encodedSize)).sum +
        if Path.components path = [] then 0 else surplus (Path.components path) := by
  obtain ⟨regular, fits, -, -⟩ := sound.toTallied
  obtain ⟨branch, h, hkind, rfl⟩ := exists_branch_of_list regular fits sound.mapped hlist
  refine ⟨_, lookup_eq regular fits sound.mapped h, of_decide_eq_true hkind, ?_⟩
  rw [← extent]
  by_cases hroot : Path.components path = []
  · rw [if_pos hroot]
    rw [hroot] at h
    rw [sound.mapped.node_root h]
    rfl
  · obtain ⟨x, hx⟩ := sound.mapped.exists_record h hroot
    rw [if_neg hroot, if_neg (by simp [hx])]
    exact sized.recorded h hroot hkind

/-- After a run the sizes of directories are too large by what its calls overstate. -/
theorem Call.runAll_sized (calls : List (UInt64 × Call)) {store : τ}
    (sound : Sound layout blockSize (Store.size store) (content store) branches)
    (sized : Sized layout (content store) branches surplus) :
    ∃ branches', Sound layout blockSize (Store.size (Call.runAll layout calls store).2)
        (content (Call.runAll layout calls store).2) branches' ∧
      Sized layout (content (Call.runAll layout calls store).2) branches'
        ((calls.zip (Call.runAll layout calls store).1).foldl
          (fun surplus (timed, answer) => timed.2.overstate answer surplus) surplus) := by
  induction calls generalizing store branches surplus with
  | nil => exact ⟨branches, sound, sized⟩
  | cons timed rest ih =>
    obtain ⟨now, call⟩ := timed
    obtain ⟨branches', step, sound'⟩ := Call.outcome_step sound now call
    rw [Call.runAll_cons]
    exact ih sound' (sized.step step sound.mapped)

end Reliable

/-! ## A size that says too much -/

/-- A file next to an empty directory takes all free blocks, and then an entry is to be created in
the directory. -/
def overstatingCalls : List (UInt64 × Call) :=
  [(1, .makeDirectory "/d"), (2, .createFile "/f"), (3, .write "/f" 4000000 [1].toByteArray),
    (4, .createFile "/d/x")]

section Contents

variable {m m' : Content} {branches branches' : Branches} {now : UInt64} {r : Except Error Reply}

/-- There is an empty directory. -/
def Vacant (m : Content) (branches : Branches) : Prop :=
  ∃ directory, branches ["d"] = some directory ∧ directory.node.isDirectory ∧
    entries smallest m directory.chain = []

theorem Vacant.of_evolved {target news : List String} {taken : List Nat} {counted : Nat}
    (vacant : Vacant m branches)
    (evolved : Evolved smallest m branches target news taken counted m' branches')
    (hne : ["d"] ≠ target) : Vacant m' branches' := by
  obtain ⟨directory, h, hkind, hnil⟩ := vacant
  obtain ⟨h', alike⟩ := evolved.other hne h
  rw [Alike, if_pos hkind, entryNames, entryNames, hnil] at alike
  exact ⟨directory, h', hkind, List.map_eq_nil_iff.mp alike⟩

/-- There is an empty directory, and nothing else. -/
structure OnlyVacant (m : Content) (branches : Branches) : Prop where
  vacant : Vacant m branches
  root : branches [] = some ⟨Node.root smallest, [smallest.dataAddress]⟩
  names : entryNames smallest m [smallest.dataAddress] = ["d"]
  card : (marked smallest m).card = 2

theorem OnlyVacant.of_formatted {blockSize : UInt32} {size : Nat}
    (formatted : Formatted smallest blockSize size m)
    (step : Step smallest m (rootOnly smallest) now (.makeDirectory "/d") r m' branches') :
    OnlyVacant m' branches' := by
  obtain ⟨b, place, rfl, hevolved⟩ := step.of_first_creation formatted
    (show (Call.makeDirectory "/d").creation = some ("/", "d", .directory) by decide +kernel)
    (by decide +kernel) (by decide +kernel)
  have hroot : ([] : List String) ≠ ["d"] := by simp
  have hself := Function.update_self ["d"]
    (some (⟨⟨⟨.directory, b, 0, now, "d"⟩, some place⟩, [b]⟩ : Branch)) (rootOnly smallest)
  have hlisting := hevolved.listing rfl (Function.update_of_ne hroot _ (rootOnly smallest)) rfl
  rw [entryNames, entryNames, formatted.empty.1] at hlisting
  obtain ⟨touched, growth⟩ := hevolved.growth
  have hcard := growth.card_marked
  rw [formatted.marked_eq, Finset.card_singleton] at hcard
  refine ⟨⟨_, hself, rfl, ?_⟩, Function.update_of_ne hroot _ _, hlisting, hcard⟩
  -- no name leads on
  refine hevolved.mapped.entries_eq_nil hself rfl fun name => ?_
  rw [Function.update_of_ne (by simp)]
  exact if_neg (by simp)

/-- A file is created next to the directory. -/
theorem OnlyVacant.createFile (only : OnlyVacant m branches) (regular : smallest.Regular)
    (step : Step smallest m branches now (.createFile "/f") r m' branches') :
    Vacant m' branches' ∧ ∃ b place,
      branches' ["f"] = some ⟨⟨⟨.file, b, 0, now, "f"⟩, some place⟩, [b]⟩ := by
  have hcomponents : Path.components "/" = [] := by decide +kernel
  have hnew : "f" ∉ entryNames smallest m [smallest.dataAddress] := by
    rw [only.names]
    decide
  have hlarge : grownExtent smallest m ⟨Node.root smallest, [smallest.dataAddress]⟩ "f"
      < 2 ^ 32 := by
    rw [grownExtent, extent_eq, ← entryNames, only.names]
    decide
  obtain ⟨b, place, added, hbranches, hevolved, -⟩ := step.of_creation_of_space regular
    (show (Call.createFile "/f").creation = some ("/", "f", .file) by decide +kernel)
    ((congrArg branches hcomponents).trans only.root) (by decide +kernel) hnew hlarge
    (by rw [only.card]; decide)
  rw [hcomponents] at hbranches hevolved
  refine ⟨only.vacant.of_evolved hevolved (by simp), b, place, ?_⟩
  rw [hbranches]
  exact Function.update_self ..

/-- The data does not fit in the file, and all blocks are taken. -/
theorem Vacant.write {b place : Nat} (vacant : Vacant m branches) (regular : smallest.Regular)
    {mtime : UInt64} (hfile : branches ["f"] = some ⟨⟨⟨.file, b, 0, mtime, "f"⟩, some place⟩, [b]⟩)
    (step : Step smallest m branches now (.write "/f" 4000000 [1].toByteArray) r m' branches') :
    Vacant m' branches' ∧ marked smallest m' = smallest.covered := by
  have hcomponents : Path.components "/f" = ["f"] := by decide +kernel
  obtain ⟨added, rfl, hextended, ⟨-, hlength⟩ | ⟨-, hfull, -⟩⟩ := step.of_write
    ((congrArg branches hcomponents).trans hfile) Bool.false_ne_true (by decide)
    (grownSize_of_empty rfl (by decide))
  · -- there are not so many blocks
    obtain ⟨touched, growth⟩ := hextended.growth
    have hcard := growth.card_marked
    have hle := card_marked_le (m := m') regular
    rw [show smallest.bitmapBits = 4096 by decide] at hle
    rw [show blocksFor smallest (4000000 + ([1].toByteArray).size) = 7875 by decide,
      List.length_singleton] at hlength
    omega
  · exact ⟨vacant.of_evolved hextended (by rw [hcomponents]; decide), hfull⟩

/-- Where no block is free the directory gets no entry. -/
theorem Vacant.createFile (vacant : Vacant m branches)
    (hfull : marked smallest m = smallest.covered)
    (step : Step smallest m branches now (.createFile "/d/x") r m' branches') :
    r = .error .outOfSpace ∧ Vacant m' branches' := by
  obtain ⟨directory, h, hkind, hnil⟩ := vacant
  have hcomponents : Path.components "/d" = ["d"] := by decide +kernel
  have hcheck : checkNew directory.node "x" = .ok () := by
    rw [checkNew, show validateName "x" = .ok () by decide +kernel]
    exact if_pos hkind
  have hnew : "x" ∉ entryNames smallest m directory.chain := by
    rw [entryNames, hnil]
    exact List.not_mem_nil
  have hlarge : grownExtent smallest m directory "x" < 2 ^ 32 := by
    rw [grownExtent, hnil]
    decide
  rcases step.of_creation
    (show (Call.createFile "/d/x").creation = some ("/d", "x", .file) by decide +kernel)
    ((congrArg branches hcomponents).trans h) hcheck hnew hlarge with
    ⟨b, place, added, -, -, hevolved, -⟩ | ⟨taken, hr, -, hevolved, -⟩
  · obtain ⟨touched, growth⟩ := hevolved.growth
    have hb := List.mem_cons_self (a := b) (l := added)
    exact absurd (hfull ▸ growth.taken_covered b hb) (growth.fresh b hb)
  · rw [hcomponents] at hevolved
    obtain ⟨directory', h', hkeeps⟩ := hevolved.keeps h
    have hlisting := hevolved.listing h h' hkind
    rw [entryNames, entryNames, hnil] at hlisting
    exact ⟨hr, directory', h', hkeeps.isDirectory_eq.trans hkind, List.map_eq_nil_iff.mp hlisting⟩

end Contents

/-- The calls before the last one leave an empty directory, and no free block. -/
theorem crowded_overstatingCalls {volume : Memory}
    (hformat : format 512 (blank 4195840) = .ok smallest volume) :
    ∃ branches,
      Sound smallest 512 (Store.size (Call.runAll smallest (overstatingCalls.take 3) volume).2)
        (content (Call.runAll smallest (overstatingCalls.take 3) volume).2) branches ∧
      Vacant (content (Call.runAll smallest (overstatingCalls.take 3) volume).2) branches ∧
      marked smallest (content (Call.runAll smallest (overstatingCalls.take 3) volume).2)
        = smallest.covered := by
  have formatted := formatted_of_format hformat
  have regular := formatted.regular
  obtain ⟨branches₁, step₁, sound₁⟩ := Call.outcome_step formatted.sound 1 (.makeDirectory "/d")
  have only := OnlyVacant.of_formatted formatted step₁
  obtain ⟨branches₂, step₂, sound₂⟩ := Call.outcome_step sound₁ 2 (.createFile "/f")
  obtain ⟨vacant, b, place, hfile⟩ := only.createFile regular step₂
  obtain ⟨branches₃, step₃, sound₃⟩ := Call.outcome_step sound₂ 3
    (.write "/f" 4000000 [1].toByteArray)
  obtain ⟨vacant, hfull⟩ := vacant.write regular hfile step₃
  simp only [overstatingCalls, List.take_succ_cons, List.take_zero, Call.runAll_cons]
  exact ⟨branches₃, sound₃, vacant, hfull⟩

/-- The calls leave an empty directory whose record counts the entry that was not created. -/
theorem overstated_overstatingCalls {volume : Memory}
    (hformat : format 512 (blank 4195840) = .ok smallest volume) :
    list smallest (Call.runAll smallest overstatingCalls volume).2 "/d" = .ok #[] ∧
      overstated overstatingCalls (Call.runAll smallest overstatingCalls volume).1 ["d"] = 19 := by
  obtain ⟨branches₃, sound₃, vacant, hfull⟩ := crowded_overstatingCalls hformat
  obtain ⟨branches₄, step₄, sound₄⟩ := Call.outcome_step sound₃ 4 (.createFile "/d/x")
  obtain ⟨hshort, directory, h, hkind, hnil⟩ := vacant.createFile hfull step₄
  have hcomponents : Path.components "/d" = ["d"] := by decide +kernel
  simp only [overstatingCalls, List.take_succ_cons, List.take_zero, Call.runAll_cons,
    Call.runAll_nil] at hshort hnil sound₄
  simp only [overstated, overstatingCalls, Call.runAll_cons, List.zip_cons_cons, List.foldl_cons]
  constructor
  · refine (list_eq sound₄.regular sound₄.fits sound₄.mapped
      ((congrArg branches₄ hcomponents).trans h)).trans ?_
    rw [if_pos hkind, hnil]
  · rw [hshort, Call.overstate_of_short
      (show (Call.createFile "/d/x").creation = some ("/d", "x", .file) by decide +kernel),
      hcomponents]
    exact Function.update_self ..

/-! ## What is looked up and what is listed -/

/-- However the calls of a run on a new volume end, the size that is looked up of a directory is how
long the entries are that it lists. Only the record of a subdirectory also counts the last entry for
which space ran out there. -/
theorem directory_sizes {τ : Type} [Store τ] [Reliable τ] {layout : Layout} {blockSize : UInt32}
    {blank formatted : τ}
    (hformat : format blockSize blank = .ok layout formatted) (calls : List (UInt64 × Call))
    (path : String) :
    (∀ nodes, list layout (Call.runAll layout calls formatted).2 path = .ok nodes →
      ∃ stat, lookup layout (Call.runAll layout calls formatted).2 path = .ok stat ∧
        stat.kind = .directory ∧
        stat.size = (nodes.toList.map (·.record.encodedSize)).sum +
          if Path.components path = [] then 0
          else overstated calls (Call.runAll layout calls formatted).1 (Path.components path)) ∧
      ∀ stat, lookup layout (Call.runAll layout calls formatted).2 path = .ok stat →
        stat.kind = .directory →
        ∃ nodes, list layout (Call.runAll layout calls formatted).2 path = .ok nodes := by
  obtain ⟨branches, sound, sized⟩ :=
    Call.runAll_sized calls (formatted_of_format hformat).sound (sized_rootOnly _ _)
  obtain ⟨regular, fits, -, -⟩ := sound.toTallied
  refine ⟨fun nodes hlist => sized.lookup_of_list sound hlist, fun stat hlookup hkind => ?_⟩
  rcases h : branches (Path.components path) with _ | branch
  · rw [(question_error regular fits sound.mapped h).1] at hlookup
    cases hlookup
  · rw [lookup_eq regular fits sound.mapped h] at hlookup
    obtain rfl := Except.ok.inj hlookup
    refine ⟨_, (list_eq regular fits sound.mapped h).trans (if_pos ?_)⟩
    exact decide_eq_true hkind

theorem directory_sizes_on_blank :
    ∃ volume, format 512 (blank 4195840) = .ok smallest volume ∧
      ∃ stat, lookup smallest (Call.runAll smallest overstatingCalls volume).2 "/d" = .ok stat ∧
        stat.kind = .directory ∧ stat.size = ((#[] : Array Node).toList.map
          (·.record.encodedSize)).sum + 19 := by
  obtain ⟨volume, hformat⟩ := format_blank
  obtain ⟨hlist, hsurplus⟩ := overstated_overstatingCalls hformat
  obtain ⟨stat, hlookup, hkind, hstat⟩ :=
    (directory_sizes hformat overstatingCalls "/d").1 #[] hlist
  have hcomponents : Path.components "/d" = ["d"] := by decide +kernel
  rw [hcomponents, if_neg (by decide), hsurplus] at hstat
  exact ⟨volume, hformat, stat, hlookup, hkind, hstat⟩

/-- An empty directory has a size after a creation in it has run out of space. -/
theorem short_create_overstates :
    ∃ volume, format 512 (blank 4195840) = .ok smallest volume ∧
      list smallest (Call.runAll smallest overstatingCalls volume).2 "/d" = .ok #[] ∧
      ∃ stat, lookup smallest (Call.runAll smallest overstatingCalls volume).2 "/d" = .ok stat ∧
        stat.size ≠ ((#[] : Array Node).toList.map (·.record.encodedSize)).sum := by
  obtain ⟨volume, hformat⟩ := format_blank
  obtain ⟨hlist, hsurplus⟩ := overstated_overstatingCalls hformat
  obtain ⟨branches, sound, sized⟩ :=
    Call.runAll_sized overstatingCalls (formatted_of_format hformat).sound (sized_rootOnly _ _)
  obtain ⟨stat, hlookup, -, hstat⟩ := sized.lookup_of_list sound hlist
  refine ⟨volume, hformat, hlist, stat, hlookup, fun heq => ?_⟩
  have hcomponents : Path.components "/d" = ["d"] := by decide +kernel
  rw [← overstated, hcomponents, if_neg (by decide), hsurplus, heq] at hstat
  exact absurd hstat (by decide)

end ChainFs.Volume
