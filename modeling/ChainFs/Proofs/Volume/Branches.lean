import ChainFs.Proofs.Chain.Payload
import ChainFs.Proofs.Directory.Entries
import Mathlib.Data.List.Induction

/-!
# The tree of a volume

A volume whose directories and chains are in order is known by its branches: what each path of names
leads to, and the chain of blocks behind it.

* `Volume.Branches` — the branches of a volume by the names that lead to them;
* `Volume.Mapped` — a content holds these branches: their chains are intact and share no blocks,
  names lead where the directories say, and what lies behind the last record of a directory or
  behind the end of a file is zero.

Branches are a function of lists of names, not a tree: a call changes this function at one list, or
adds one, and what it leaves alone is said by equations. What a content has to do with them is said
for one branch at a time, together with the directory above it.
-/

namespace ChainFs.Volume

open Store Bitmap Chain Directory

variable {layout : Layout} {m m' : Content}

/-- A node with the chain of its blocks. -/
structure Branch where
  node : Node
  chain : List Nat

/-- What the names of a path lead to. -/
abbrev Branches : Type :=
  List String → Option Branch

/-- The entries of a directory; a file has none. -/
def Branch.children (layout : Layout) (m : Content) (branch : Branch) : List Node :=
  if branch.node.isDirectory then entries layout m branch.chain else []

/-- The branch with another size and mtime recorded for its node; the root has no record. -/
def Branch.stamp (size : UInt32) (mtime : UInt64) (branch : Branch) : Branch :=
  if branch.node.recordAddress = none then branch
  else
    { branch with node := { branch.node with record := { branch.node.record with size, mtime } } }

@[simp] theorem Branch.chain_stamp (size : UInt32) (mtime : UInt64) (branch : Branch) :
    (branch.stamp size mtime).chain = branch.chain := by
  unfold stamp
  split <;> rfl

theorem Branch.stamp_of_record {branch : Branch} {x : Nat} (hx : branch.node.recordAddress = some x)
    (size : UInt32) (mtime : UInt64) :
    branch.stamp size mtime = { branch with node := { branch.node with
      record := { branch.node.record with size, mtime } } } :=
  if_neg (by rw [hx]; exact Option.some_ne_none x)

/-- The branch with more blocks behind its chain. -/
def Branch.extend (added : List Nat) (branch : Branch) : Branch :=
  { branch with chain := branch.chain ++ added }

@[simp] theorem Branch.chain_extend (added : List Nat) (branch : Branch) :
    (Branch.extend added branch).chain = branch.chain ++ added :=
  rfl

@[simp] theorem Branch.node_extend (added : List Nat) (branch : Branch) :
    (Branch.extend added branch).node = branch.node :=
  rfl

namespace Branches

/-- The branches, with one of them changed. -/
def modify (names : List String) (change : Branch → Branch) (branches : Branches) : Branches :=
  fun names' => (branches names').map fun branch => if names' = names then change branch else branch

variable {branches : Branches} {names names' : List String} {change : Branch → Branch}

theorem modify_self {branch : Branch} (h : branches names = some branch) :
    branches.modify names change names = some (change branch) := by
  rw [modify, h, Option.map_some, if_pos rfl]

theorem modify_of_ne (h : names' ≠ names) :
    branches.modify names change names' = branches names' := by
  rw [modify]
  simp only [if_neg h]
  exact Option.map_id'

theorem modify_none (h : branches names' = none) : branches.modify names change names' = none := by
  rw [modify, h, Option.map_none]

@[simp] theorem modify_id (branches : Branches) (names : List String) :
    branches.modify names id = branches := by
  funext names'
  simp [modify]

theorem modify_eq_self {branch : Branch} (h : branches names = some branch)
    (hchange : change branch = branch) : branches.modify names change = branches := by
  funext names'
  by_cases hnames : names' = names
  · rw [hnames, modify_self h, hchange, h]
  · exact modify_of_ne hnames

theorem modify_modify (branches : Branches) (names : List String)
    (change change' : Branch → Branch) :
    (branches.modify names change).modify names change'
      = branches.modify names (change' ∘ change) := by
  funext names'
  rw [modify, modify, modify, Option.map_map]
  congr 1
  funext branch
  rw [Function.comp_apply]
  split <;> rfl

/-- A branch afterwards is the one that changed, or one from before. -/
theorem modify_cases {branch branch' : Branch} (h : branches names = some branch)
    (h' : branches.modify names change names' = some branch') :
    (names' = names ∧ branch' = change branch) ∨
      names' ≠ names ∧ branches names' = some branch' := by
  by_cases hnames : names' = names
  · subst hnames
    rw [modify_self h] at h'
    exact .inl ⟨rfl, (Option.some.inj h').symm⟩
  · rw [modify_of_ne hnames] at h'
    exact .inr ⟨hnames, h'⟩

end Branches

@[simp] theorem Branch.extend_nil : Branch.extend [] = id := by
  funext branch
  simp [Branch.extend]

/-- A directory whose entries have different names that entries may have, and which is zero behind
the last of them. -/
structure Orderly (layout : Layout) (m : Content) (chain : List Nat) : Prop where
  nodup : ((entries layout m chain).map (·.record.name)).Nodup
  valid : ∀ node ∈ entries layout m chain, validateName node.record.name = .ok ()
  zero : ∀ last, chain.getLast? = some last → ∀ x,
    last + vacantIn layout m last Cursor.firstRecord ≤ x → layout.InBlock last x → m x = 0

/-- A content holds branches. -/
structure Mapped (layout : Layout) (m : Content) (branches : Branches) : Prop where
  root : ∃ chain, branches [] = some ⟨Node.root layout, chain⟩
  intact : ∀ {names branch}, branches names = some branch → Intact layout m branch.chain
  first : ∀ {names branch}, branches names = some branch →
    branch.chain[0]? = some branch.node.record.address
  apart : ∀ {names names' branch branch' a}, branches names = some branch →
    branches names' = some branch' → a ∈ branch.chain → a ∈ branch'.chain → names = names'
  child : ∀ names name, (branches (names ++ [name])).map Branch.node =
    (branches names).bind fun branch =>
      (branch.children layout m).find? (·.record.name = name)
  orderly : ∀ {names branch}, branches names = some branch → branch.node.isDirectory →
    Orderly layout m branch.chain
  zero : ∀ {names branch}, branches names = some branch → ¬ branch.node.isDirectory →
    ∀ i, branch.node.record.size.toNat ≤ i → payload layout m branch.chain i = 0

namespace Mapped

variable {branches : Branches} {names : List String} {branch : Branch}

/-- An entry's record stands in a block of its directory. -/
theorem mem_parent (mapped : Mapped layout m branches) {name : String}
    (h : branches (names ++ [name]) = some branch) :
    ∃ parent, branches names = some parent ∧ parent.node.isDirectory ∧
      branch.node ∈ entries layout m parent.chain ∧ branch.node.record.name = name := by
  have hchild := mapped.child names name
  rw [h] at hchild
  obtain ⟨parent, hparent, hfind⟩ := Option.bind_eq_some_iff.mp hchild.symm
  rw [Branch.children] at hfind
  split at hfind
  · rename_i hdirectory
    refine ⟨parent, hparent, hdirectory, List.mem_of_find?_eq_some hfind, ?_⟩
    simpa using List.find?_some hfind
  · cases hfind

/-- Every entry of a directory is where its name leads. -/
theorem exists_child (mapped : Mapped layout m branches) (h : branches names = some branch)
    (hkind : branch.node.isDirectory) {node : Node} (hnode : node ∈ entries layout m branch.chain) :
    ∃ child, branches (names ++ [node.record.name]) = some child ∧ child.node = node := by
  have hfind : (entries layout m branch.chain).find? (·.record.name = node.record.name)
      = some node := by
    rcases hfound : (entries layout m branch.chain).find?
        (·.record.name = node.record.name) with _ | found
    · exact absurd (List.find?_eq_none.mp hfound node hnode) (by simp)
    · have hname : found.record.name = node.record.name := by simpa using List.find?_some hfound
      rw [hfound, List.inj_on_of_nodup_map (mapped.orderly h hkind).nodup
        (List.mem_of_find?_eq_some hfound) hnode hname]
  have hchild := mapped.child names node.record.name
  rw [h, Option.bind_some, Branch.children, if_pos hkind, hfind] at hchild
  exact Option.map_eq_some_iff.mp hchild

/-- A directory has no entries if no name leads on. -/
theorem entries_eq_nil (mapped : Mapped layout m branches) (h : branches names = some branch)
    (hkind : branch.node.isDirectory) (hnone : ∀ name, branches (names ++ [name]) = none) :
    entries layout m branch.chain = [] := by
  refine List.eq_nil_iff_forall_not_mem.mpr fun node hnode => ?_
  obtain ⟨child, hchild, -⟩ := mapped.exists_child h hkind hnode
  rw [hnone] at hchild
  cases hchild

/-- Where a path leads nowhere, no name leads on. -/
theorem none_of_none (mapped : Mapped layout m branches) (h : branches names = none)
    (rest : List String) : branches (names ++ rest) = none := by
  induction rest generalizing names with
  | nil => rwa [List.append_nil]
  | cons name rest ih =>
    rw [List.append_cons]
    refine ih ?_
    have hchild := mapped.child names name
    rw [h] at hchild
    exact Option.map_eq_none_iff.mp hchild

/-- The record of a node that is not the root stands in a block of the volume. -/
theorem exists_parent (mapped : Mapped layout m branches) (h : branches names = some branch)
    (hroot : names ≠ []) :
    ∃ front name parent, names = front ++ [name] ∧ branches front = some parent ∧
      parent.node.isDirectory ∧ branch.node ∈ entries layout m parent.chain ∧
      branch.node.record.name = name := by
  obtain ⟨front, name, rfl⟩ := List.eq_nil_or_concat names |>.resolve_left hroot
  rw [List.concat_eq_append] at h ⊢
  obtain ⟨parent, hparent⟩ := mapped.mem_parent h
  exact ⟨front, name, parent, rfl, hparent⟩

/-- Above a directory is a directory, and above the root is the root itself. -/
theorem exists_above (mapped : Mapped layout m branches) (h : branches names = some branch)
    (hkind : branch.node.isDirectory) :
    ∃ above, branches names.dropLast = some above ∧ above.node.isDirectory := by
  by_cases hroot : names = []
  · subst hroot
    exact ⟨branch, h, hkind⟩
  · obtain ⟨front, name, parent, rfl, hparent, hdirectory, -⟩ := mapped.exists_parent h hroot
    exact ⟨parent, by rwa [List.dropLast_concat], hdirectory⟩

/-- All branches but the root have a record. -/
theorem exists_record (mapped : Mapped layout m branches) (h : branches names = some branch)
    (hroot : names ≠ []) : ∃ x, branch.node.recordAddress = some x := by
  obtain ⟨front, name, parent, -, -, -, hmem, -⟩ := mapped.exists_parent h hroot
  obtain ⟨a, -, place, hplace, -⟩ := mem_entries hmem
  exact ⟨a + place, hplace⟩

/-- Without a name one is at the root. -/
theorem node_root (mapped : Mapped layout m branches) (h : branches [] = some branch) :
    branch.node = Node.root layout := by
  obtain ⟨chain, hroot⟩ := mapped.root
  obtain rfl := Option.some.inj (h.symm.trans hroot)
  rfl

/-- Only the root has no record. -/
theorem eq_nil_iff (mapped : Mapped layout m branches) (h : branches names = some branch) :
    names = [] ↔ branch.node.recordAddress = none := by
  constructor
  · rintro rfl
    rw [mapped.node_root h]
    rfl
  · intro hnone
    by_contra hroot
    obtain ⟨x, hx⟩ := mapped.exists_record h hroot
    rw [hnone] at hx
    cases hx

/-- A file is not the root. -/
theorem ne_nil_of_file (mapped : Mapped layout m branches) (h : branches names = some branch)
    (hfile : ¬ branch.node.isDirectory) : names ≠ [] := by
  rintro rfl
  rw [mapped.node_root h] at hfile
  exact hfile rfl

/-- The record of a branch that is not the root lies in a block of its parent. -/
theorem exists_block (mapped : Mapped layout m branches) (h : branches names = some branch)
    {x : Nat} (hx : branch.node.recordAddress = some x) :
    ∃ front name parent a, names = front ++ [name] ∧ branches front = some parent ∧
      parent.node.isDirectory ∧ branch.node ∈ entries layout m parent.chain ∧
      a ∈ parent.chain ∧ a + Cursor.firstRecord ≤ x ∧
      x + branch.node.record.encodedSize ≤ a + layout.blockSize ∧
      x + branch.node.record.encodedSize ≤ a + vacantIn layout m a Cursor.firstRecord := by
  have hroot : names ≠ [] := by
    rw [Ne, mapped.eq_nil_iff h, hx]
    exact Option.some_ne_none x
  obtain ⟨front, name, parent, rfl, hparent, hdirectory, hmem, -⟩ := mapped.exists_parent h hroot
  obtain ⟨a, ha, hblock⟩ := inBlock_of_recordAddress hmem hx
  exact ⟨front, name, parent, a, rfl, hparent, hdirectory, hmem, ha, hblock⟩

/-- Different branches have their records at different places. -/
theorem eq_of_recordAddress (mapped : Mapped layout m branches) (regular : layout.Regular)
    {names' : List String} {branch' : Branch} (h : branches names = some branch)
    (h' : branches names' = some branch') {x : Nat} (hx : branch.node.recordAddress = some x)
    (hx' : branch'.node.recordAddress = some x) : names = names' := by
  obtain ⟨front, name, parent, a, rfl, hparent, -, hmem, ha, hle, hend, -⟩ :=
    mapped.exists_block h hx
  obtain ⟨front', name', parent', a', rfl, hparent', -, hmem', ha', hle', hend', -⟩ :=
    mapped.exists_block h' hx'
  have hpos : 0 < branch.node.record.encodedSize := by
    rw [Record.encodedSize, Record.headerSize]
    omega
  have hpos' : 0 < branch'.node.record.encodedSize := by
    rw [Record.encodedSize, Record.headerSize]
    omega
  obtain rfl : a = a' := regular.eq_of_inBlock ((mapped.intact hparent).covered ha)
    ((mapped.intact hparent').covered ha') (x := x) ⟨by omega, by omega⟩ ⟨by omega, by omega⟩
  obtain rfl : front = front' := mapped.apart hparent hparent' ha ha'
  obtain rfl := Option.some.inj (hparent.symm.trans hparent')
  have hnode : branch.node = branch'.node :=
    Directory.eq_of_recordAddress regular (fun b hb => (mapped.intact hparent).covered hb) hmem
      hmem' (hx.trans hx'.symm)
  obtain ⟨-, -, -, -, hname⟩ := mapped.mem_parent h
  obtain ⟨-, -, -, -, hname'⟩ := mapped.mem_parent h'
  rw [← hname, ← hname', hnode]

/-- A content holds no other branches. -/
theorem unique (mapped : Mapped layout m branches) (regular : layout.Regular)
    {branches' : Branches} (mapped' : Mapped layout m branches') : branches = branches' := by
  have heq : ∀ {names branch branch'}, branches names = some branch →
      branches' names = some branch' → branch.node = branch'.node → branch = branch' := by
    intro names branch branch' h h' hnode
    have hchain : branch.chain = branch'.chain :=
      (mapped.intact h).eq_of_first (mapped'.intact h') regular
        (by rw [mapped.first h, mapped'.first h', hnode])
    cases branch
    cases branch'
    cases hnode
    cases hchain
    rfl
  funext names
  induction names using List.reverseRecOn with
  | nil =>
    obtain ⟨chain, hroot⟩ := mapped.root
    obtain ⟨chain', hroot'⟩ := mapped'.root
    rw [hroot, hroot', heq hroot hroot' rfl]
  | append_singleton names name ih =>
    have hchild := mapped.child names name
    rw [ih, ← mapped'.child names name] at hchild
    rcases h : branches (names ++ [name]) with _ | branch
    · rw [h] at hchild
      exact (Option.map_eq_none_iff.mp hchild.symm).symm
    · rw [h] at hchild
      obtain ⟨branch', h', hnode⟩ := Option.map_eq_some_iff.mp hchild.symm
      rw [h', heq h h' hnode.symm]

end Mapped

end ChainFs.Volume
