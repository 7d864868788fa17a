import ChainFs.Proofs.Volume.Changes

/-!
# Evolution of a volume

For most questions about a run of calls it does not matter what a call was for. What matters is that
it worked on one branch only, that the branch kept its kind, its blocks and the names it had, and
which blocks were taken. This is one relation between two contents with their branches. It is closed
under composition, and so an edit of several steps is as good as its steps.

* `Volume.Evolved` — what every edit does to a volume, however far it comes: it works on one branch
  and may give it new entries, takes free blocks, and leaves everything else as it was;
* `Volume.Evolved.trans` — edits follow each other;
* `Rewritten.evolved`, `Extension.evolved`, `Addition.evolved` — the three changes of a volume are
  such edits.
-/

namespace ChainFs.Volume

open Store Bitmap Chain Directory

variable {layout : Layout} {m m' m'' : Content}

/-- The names in a directory, in their order. -/
def entryNames (layout : Layout) (m : Content) (chain : List Nat) : List String :=
  (entries layout m chain).map (·.record.name)

/-- How long the records of nodes are follows from the names. -/
theorem extent_eq (nodes : List Node) :
    extent nodes = ((nodes.map (·.record.name)).map fun name => 18 + name.utf8ByteSize).sum := by
  rw [extent, List.map_map]
  rfl

theorem find?_eq_none {chain : List Nat} {name : String} :
    (entries layout m chain).find? (·.record.name = name) = none
      ↔ name ∉ entryNames layout m chain := by
  rw [List.find?_eq_none, entryNames, List.mem_map]
  constructor
  · rintro h ⟨node, hnode, hname⟩
    exact h node hnode (by simpa using hname)
  · rintro h node hnode hname
    exact h ⟨node, hnode, by simpa using hname⟩

/-- A name that a directory does not have leads nowhere. -/
theorem Mapped.none_of_new {branches : Branches} {names : List String} {branch : Branch}
    (mapped : Mapped layout m branches) (h : branches names = some branch) {name : String}
    (hnew : name ∉ entryNames layout m branch.chain) : branches (names ++ [name]) = none := by
  rcases hchild : branches (names ++ [name]) with _ | child
  · rfl
  · obtain ⟨parent, hparent, -, hmem, hname⟩ := mapped.mem_parent hchild
    obtain rfl := Option.some.inj (h.symm.trans hparent)
    exact absurd (List.mem_map.mpr ⟨_, hmem, hname⟩) hnew

/-- What the two branches have in common of which the second one came out of the first: all but size
and mtime, and the blocks that were there before. -/
structure Branch.Keeps (branch branch' : Branch) : Prop where
  kind_eq : branch'.node.record.kind = branch.node.record.kind
  address_eq : branch'.node.record.address = branch.node.record.address
  name_eq : branch'.node.record.name = branch.node.record.name
  recordAddress_eq : branch'.node.recordAddress = branch.node.recordAddress
  chain_prefix : branch.chain <+: branch'.chain

namespace Branch.Keeps

variable {branch branch' branch'' : Branch}

theorem refl (branch : Branch) : branch.Keeps branch :=
  ⟨rfl, rfl, rfl, rfl, List.prefix_rfl⟩

theorem trans (h : branch.Keeps branch') (h' : branch'.Keeps branch'') : branch.Keeps branch'' :=
  ⟨h'.kind_eq.trans h.kind_eq, h'.address_eq.trans h.address_eq, h'.name_eq.trans h.name_eq,
    h'.recordAddress_eq.trans h.recordAddress_eq, h.chain_prefix.trans h'.chain_prefix⟩

theorem isDirectory_eq (h : branch.Keeps branch') :
    branch'.node.isDirectory = branch.node.isDirectory := by
  rw [Node.isDirectory, Record.isDirectory, h.kind_eq, Node.isDirectory, Record.isDirectory]

theorem stamp (branch : Branch) (size : UInt32) (mtime : UInt64) :
    branch.Keeps (branch.stamp size mtime) := by
  unfold Branch.stamp
  split
  · exact .refl branch
  · exact ⟨rfl, rfl, rfl, rfl, List.prefix_rfl⟩

theorem extend (branch : Branch) (added : List Nat) : branch.Keeps (branch.extend added) :=
  ⟨rfl, rfl, rfl, rfl, List.prefix_append ..⟩

end Branch.Keeps

/-- A branch shows the same in two contents: the same names, or the same bytes. -/
def Alike (layout : Layout) (m m' : Content) (branch : Branch) : Prop :=
  if branch.node.isDirectory then
    entryNames layout m' branch.chain = entryNames layout m branch.chain
  else payload layout m' branch.chain = payload layout m branch.chain

namespace Alike

variable {branch : Branch}

theorem refl (layout : Layout) (m : Content) (branch : Branch) : Alike layout m m branch := by
  unfold Alike
  split <;> rfl

theorem trans (h : Alike layout m m' branch) (h' : Alike layout m' m'' branch) :
    Alike layout m m'' branch := by
  unfold Alike at *
  split at h
  · rename_i hkind
    rw [if_pos hkind] at h' ⊢
    exact h'.trans h
  · rename_i hkind
    rw [if_neg hkind] at h' ⊢
    exact h'.trans h

/-- Where no byte changes, all is alike. -/
theorem of_same (regular : layout.Regular)
    (h : ∀ a ∈ branch.chain, ∀ x, layout.InBlock a x → m' x = m x) :
    Alike layout m m' branch := by
  unfold Alike entryNames
  rw [entries_congr fun a ha x _ hx => h a ha x hx,
    payload_congr regular fun a ha x _ hx => h a ha x hx]
  split <;> rfl

end Alike

/-- From `m` to `m'` an edit worked on the branch of `target`. It took the blocks `taken`, `counted`
of them were counted, the directory `target` got entries with the names `news`, and nothing else
changed. -/
structure Evolved (layout : Layout) (m : Content) (branches : Branches) (target : List String)
    (news : List String) (taken : List Nat) (counted : Nat) (m' : Content) (branches' : Branches) :
    Prop where
  growth : ∃ touched, Growth layout m touched taken counted m'
  mapped : Mapped layout m' branches'
  keeps : ∀ {names branch}, branches names = some branch →
    ∃ branch', branches' names = some branch' ∧ branch.Keeps branch'
  created : ∀ {names branch}, branches names = none → branches' names = some branch →
    ∃ name ∈ news, names = target ++ [name]
  other : ∀ {names branch}, names ≠ target → branches names = some branch →
    branches' names = some branch ∧ Alike layout m m' branch
  listing : ∀ {branch branch'}, branches target = some branch → branches' target = some branch' →
    branch.node.isDirectory →
    entryNames layout m' branch'.chain = entryNames layout m branch.chain ++ news

namespace Evolved

variable {branches branches' branches'' : Branches} {target news news' : List String}
  {taken taken' : List Nat} {counted counted' : Nat}

theorem refl (mapped : Mapped layout m branches) (target : List String) :
    Evolved layout m branches target [] [] 0 m branches where
  growth := ⟨[], .refl layout m⟩
  mapped := mapped
  keeps {names branch} h := ⟨branch, h, .refl branch⟩
  created hnone h := by
    rw [hnone] at h
    cases h
  other _ h := ⟨h, .refl ..⟩
  listing h h' _ := by
    obtain rfl := Option.some.inj (h.symm.trans h')
    rw [List.append_nil]

/-- An edit of a branch after an edit of the same branch. -/
theorem trans (h : Evolved layout m branches target news taken counted m' branches')
    (h' : Evolved layout m' branches' target news' taken' counted' m'' branches'') :
    Evolved layout m branches target (news ++ news') (taken ++ taken') (counted + counted') m''
      branches'' where
  growth := by
    obtain ⟨touched, hgrowth⟩ := h.growth
    obtain ⟨touched', hgrowth'⟩ := h'.growth
    have hcovered : ∀ a ∈ touched ++ touched', a ∈ layout.covered := by
      intro a ha
      rcases List.mem_append.mp ha with ha | ha
      · exact hgrowth.touched_covered a ha
      · exact hgrowth'.touched_covered a ha
    have hmore := hgrowth.mono hcovered fun a ha => List.mem_append_left _ ha
    exact ⟨_, hmore.trans hgrowth' fun a ha => by simp [ha]⟩
  mapped := h'.mapped
  keeps hbranch := by
    obtain ⟨branch', hbranch', hkeeps⟩ := h.keeps hbranch
    obtain ⟨branch'', hbranch'', hkeeps'⟩ := h'.keeps hbranch'
    exact ⟨branch'', hbranch'', hkeeps.trans hkeeps'⟩
  created {names branch} hnone hbranch := by
    rcases hmiddle : branches' names with _ | middle
    · obtain ⟨name, hname, hnames⟩ := h'.created hmiddle hbranch
      exact ⟨name, List.mem_append_right _ hname, hnames⟩
    · obtain ⟨name, hname, hnames⟩ := h.created hnone hmiddle
      exact ⟨name, List.mem_append_left _ hname, hnames⟩
  other hne hbranch := by
    obtain ⟨hbranch', halike⟩ := h.other hne hbranch
    obtain ⟨hbranch'', halike'⟩ := h'.other hne hbranch'
    exact ⟨hbranch'', halike.trans halike'⟩
  listing {branch branch''} hbranch hbranch'' hkind := by
    obtain ⟨branch', hbranch', hkeeps⟩ := h.keeps hbranch
    rw [h'.listing hbranch' hbranch'' (hkeeps.isDirectory_eq ▸ hkind),
      h.listing hbranch hbranch' hkind, List.append_assoc]

/-- A change of one branch that adds no entries. -/
theorem of_modify {names : List String} {branch : Branch} (h : branches names = some branch)
    {change : Branch → Branch}
    (mapped' : Mapped layout m' (branches.modify names change))
    (growth : ∃ touched, Growth layout m touched taken counted m')
    (hkeeps : branch.Keeps (change branch))
    (hother : ∀ {names' branch'}, names' ≠ names → branches names' = some branch' →
      Alike layout m m' branch')
    (hlisting : branch.node.isDirectory →
      entryNames layout m' (change branch).chain = entryNames layout m branch.chain) :
    Evolved layout m branches names [] taken counted m' (branches.modify names change) where
  growth := growth
  mapped := mapped'
  keeps {names' branch'} h' := by
    by_cases hnames : names' = names
    · subst hnames
      obtain rfl := Option.some.inj (h.symm.trans h')
      exact ⟨change branch, Branches.modify_self h, hkeeps⟩
    · exact ⟨branch', by rw [Branches.modify_of_ne hnames, h'], .refl branch'⟩
  created hnone h' := by
    rw [Branches.modify_none hnone] at h'
    cases h'
  other hne h' := ⟨by rw [Branches.modify_of_ne hne, h'], hother hne h'⟩
  listing h' h'' hkind := by
    obtain rfl := Option.some.inj (h.symm.trans h')
    rw [Branches.modify_self h] at h''
    obtain rfl := Option.some.inj h''
    rw [List.append_nil, hlisting hkind]

end Evolved

namespace Rewritten

variable {branches : Branches} {names : List String} {branch : Branch} {x : Nat} {size : UInt32}
  {mtime : UInt64}

/-- All branches show the same after new bytes for the size and mtime of a record. -/
theorem alike (rewritten : Rewritten layout m m' branches names branch x size mtime)
    (mapped : Mapped layout m branches) (regular : layout.Regular) {names' : List String}
    {branch' : Branch} (h : branches names' = some branch') : Alike layout m m' branch' := by
  unfold Alike
  split
  · exact rewritten.names_eq mapped regular h
  · rename_i hfile
    exact rewritten.payload_eq mapped regular h hfile

/-- New bytes for size and mtime of a record, seen as an edit. -/
theorem evolved (rewritten : Rewritten layout m m' branches names branch x size mtime)
    (mapped : Mapped layout m branches) (regular : layout.Regular) :
    Evolved layout m branches names [] [] 0 m'
      (branches.modify names (Branch.stamp size mtime)) := by
  have hbranch := rewritten.branch_eq
  refine .of_modify hbranch (rewritten.mapped_stamp mapped regular)
    (rewritten.growth mapped regular) (.stamp ..)
    (fun _ => rewritten.alike mapped regular) fun _ => ?_
  rw [Branch.chain_stamp]
  exact rewritten.names_eq mapped regular hbranch

end Rewritten

namespace Mapped

variable {branches : Branches} {names : List String} {branch : Branch}

/-- Blocks that are taken are no change yet. -/
theorem evolved_growth (mapped : Mapped layout m branches) (regular : layout.Regular)
    {taken : List Nat} {counted : Nat} (growth : Growth layout m [] taken counted m')
    (target : List String) : Evolved layout m branches target [] taken counted m' branches where
  growth := ⟨[], growth⟩
  mapped := mapped.of_growth regular growth
  keeps {names branch} h := ⟨branch, h, .refl branch⟩
  created hnone h := by
    rw [hnone] at h
    cases h
  other _ h := by
    refine ⟨h, .of_same regular fun a ha x hx => ?_⟩
    exact growth.same_of_marked regular ((mapped.intact h).marked a ha) (by simp) hx
  listing h h' _ := by
    obtain rfl := Option.some.inj (h.symm.trans h')
    rw [List.append_nil, entryNames, entryNames, entries_congr fun a ha x _ hx => ?_]
    exact growth.same_of_marked regular ((mapped.intact h).marked a ha) (by simp) hx

end Mapped

variable {branches : Branches} {names : List String} {branch : Branch}

/-- A chain written to, seen as an edit. -/
theorem Extension.evolved {added spare : List Nat} {counted : Nat} {p : Content}
    (extension : Extension layout m m' branches names branch added spare counted p)
    (mapped : Mapped layout m branches) (regular : layout.Regular) :
    Evolved layout m branches names [] (added ++ spare) counted m'
      (branches.modify names (Branch.extend added)) := by
  refine .of_modify extension.branch_eq (extension.mapped_extend mapped regular)
    ⟨_, extension.written.growth⟩ (.extend ..) (fun hne h' => ?_) fun hkind => ?_
  · exact .of_same regular (extension.same_of_ne mapped regular h' hne)
  · rw [entryNames, Branch.chain_extend,
      Orderly.entries_extend regular (extension.payload_eq hkind), entryNames]

/-- A new record, seen as an edit of its directory. -/
theorem Addition.evolved {parent : Branch} {last : Nat} {record : Record} {bytes : ByteArray}
    (addition : Addition layout m branches names parent last record)
    (mapped : Mapped layout m branches) (regular : layout.Regular)
    (hbytes : record.encode layout.blockSize = .ok bytes) :
    Evolved layout m branches names [record.name] [] 0 (m.put (freeAddress layout m last) bytes)
      (Function.update branches (names ++ [record.name])
        (some (newBranch layout m last record))) where
  growth := ⟨_, addition.growth mapped regular hbytes⟩
  mapped := addition.mapped_create mapped regular hbytes
  keeps {names' branch'} h := by
    refine ⟨branch', ?_, .refl branch'⟩
    rw [Function.update_of_ne, h]
    rintro rfl
    rw [addition.branches_eq mapped] at h
    cases h
  created {names' branch'} hnone h := by
    refine ⟨record.name, List.mem_singleton_self _, ?_⟩
    by_contra hnames
    rw [Function.update_of_ne hnames, hnone] at h
    cases h
  other {names' branch'} hne h := by
    refine ⟨?_, .of_same regular (addition.same_of_ne mapped regular hbytes h hne)⟩
    rw [Function.update_of_ne, h]
    rintro rfl
    rw [addition.branches_eq mapped] at h
    cases h
  listing h h' _ := by
    rw [Function.update_of_ne (by simp), h] at h'
    obtain rfl := Option.some.inj h'
    obtain rfl := Option.some.inj (h.symm.trans addition.parent_eq)
    rw [entryNames, addition.entries_put mapped regular hbytes, List.map_append, entryNames]
    rfl

end ChainFs.Volume
