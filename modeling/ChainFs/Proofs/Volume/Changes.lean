import ChainFs.Proofs.Chain.Write
import ChainFs.Proofs.Path
import ChainFs.Proofs.Volume.Branches

/-!
# Changes of a volume

Everything an edit does to a volume is made of three changes, and each of them leads from branches
to branches:

Each change has a structure with what it needs of the volume before and what it leaves at the level
of bytes. What follows are the clauses of `Volume.Mapped` one by one: chains are intact and apart,
names lead to the branches they should, directories are in order, and files are zero behind their
end. Blocks have one owner, so a record is rewritten in a block of a directory and in none of a
file, and a chain that goes on does so with blocks that were in no chain.

* `Rewritten.mapped_stamp` — new bytes for size and mtime of a record;
* `Extension.mapped_extend` — a chain written to, which may go on with new blocks behind its end;
* `Addition.mapped_create` — a record behind the last one of a directory.
-/

namespace ChainFs.Volume

open Store Bitmap Chain Directory

variable {layout : Layout} {m m' : Content}

/-! ## A record rewritten -/

/-- The branches, with another size and mtime for the one whose record stands at `x`. -/
def Branches.restat (x : Nat) (size : UInt32) (mtime : UInt64) (branches : Branches) : Branches :=
  fun names => (branches names).map fun branch =>
    { branch with node := branch.node.restat x size mtime }

namespace Mapped

variable {branches : Branches} {names : List String} {branch : Branch}

/-- Only one branch changes. -/
theorem restat_eq_modify (mapped : Mapped layout m branches) (regular : layout.Regular)
    (h : branches names = some branch) {x : Nat} (hx : branch.node.recordAddress = some x)
    (size : UInt32) (mtime : UInt64) :
    branches.restat x size mtime = branches.modify names (Branch.stamp size mtime) := by
  funext names'
  rcases hother : branches names' with _ | other
  · rw [Branches.modify_none hother, Branches.restat, hother, Option.map_none]
  · by_cases hnames : names' = names
    · subst hnames
      obtain rfl := Option.some.inj (h.symm.trans hother)
      rw [Branches.modify_self h, Branches.restat, h, Option.map_some, Node.restat_of_eq hx,
        Branch.stamp, if_neg (by rw [hx]; exact Option.some_ne_none x)]
    · rw [Branches.modify_of_ne hnames, Branches.restat, hother, Option.map_some, Node.restat_of_ne]
      exact fun hx' => hnames (mapped.eq_of_recordAddress regular hother h hx' hx)

end Mapped

/-- New bytes for size and mtime stand in the record of a branch, at `x`. A file must not get
shorter by them. -/
structure Rewritten (layout : Layout) (m m' : Content) (branches : Branches) (names : List String)
    (branch : Branch) (x : Nat) (size : UInt32) (mtime : UInt64) : Prop where
  branch_eq : branches names = some branch
  record_eq : branch.node.recordAddress = some x
  size_eq : UInt32.ofNat (m'.number (x + Record.sizeOffset) 4) = size
  mtime_eq : UInt64.ofNat (m'.number (x + Record.mtimeOffset) 8) = mtime
  same : ∀ y, y < x + Record.sizeOffset ∨ x + Record.nameSizeOffset ≤ y → m' y = m y
  grown : ¬ branch.node.isDirectory → branch.node.record.size.toNat ≤ size.toNat

namespace Rewritten

variable {branches : Branches} {names names' : List String} {branch branch' : Branch} {x : Nat}
  {size : UInt32} {mtime : UInt64}

section

variable (rewritten : Rewritten layout m m' branches names branch x size mtime)
  (mapped : Mapped layout m branches)
include rewritten mapped

/-- All that changes lies in one block of a directory, behind its link and before its free rest. -/
theorem confined :
    ∃ front parent a, branches front = some parent ∧ parent.node.isDirectory ∧ a ∈ parent.chain ∧
      (∀ y, ¬ layout.InBlock a y → m' y = m y) ∧
      (∀ y, y < a + Layout.linkSize → m' y = m y) ∧
      ∀ y, a + vacantIn layout m a Cursor.firstRecord ≤ y → m' y = m y := by
  obtain ⟨front, name, parent, a, rfl, hparent, hkind, -, ha, hle, hend, hvacant⟩ :=
    mapped.exists_block rewritten.branch_eq rewritten.record_eq
  have hheader : Record.headerSize = 18 := rfl
  have hsizeOffset : Record.sizeOffset = 5 := rfl
  have hnameOffset : Record.nameSizeOffset = 17 := rfl
  have hfirst : Cursor.firstRecord = Layout.linkSize := rfl
  rw [Record.encodedSize] at hend hvacant
  refine ⟨front, parent, a, hparent, hkind, ha, fun y hy => ?_, fun y hy => ?_, fun y hy => ?_⟩
  · rw [Layout.InBlock] at hy
    exact rewritten.same y (by omega)
  · exact rewritten.same y (by omega)
  · exact rewritten.same y (by omega)

variable (regular : layout.Regular)
include regular

/-- Only one branch changes. -/
theorem restat_eq_modify :
    branches.restat x size mtime = branches.modify names (Branch.stamp size mtime) :=
  mapped.restat_eq_modify regular rewritten.branch_eq rewritten.record_eq size mtime

theorem growth : ∃ touched, Growth layout m touched [] 0 m' := by
  obtain ⟨front, parent, a, hparent, -, ha, hsame, -⟩ := rewritten.confined mapped
  exact ⟨[a], .of_same regular ((mapped.intact hparent).covered ha) hsame⟩

theorem marked_eq : marked layout m' = marked layout m := by
  obtain ⟨front, parent, a, hparent, -, ha, hsame, -⟩ := rewritten.confined mapped
  have hdata := Layout.Regular.data_le_of_mem ((mapped.intact hparent).covered ha)
  refine marked_congr regular fun y _ hy => hsame y fun hin => ?_
  exact absurd hin.1 (by omega)

theorem same_link {b : Nat} (hb : b ∈ layout.covered) {i : Nat} (hi : i < Layout.linkSize) :
    m' (b + i) = m (b + i) := by
  obtain ⟨front, parent, a, hparent, -, ha, hsame, hlink, -⟩ := rewritten.confined mapped
  have hge := regular.blockSize_ge
  have hsize : Layout.linkSize = 4 := rfl
  by_cases hba : b = a
  · exact hlink _ (by omega)
  · refine hsame _ fun hin => hba ?_
    exact regular.eq_of_inBlock hb ((mapped.intact hparent).covered ha) ⟨by omega, by omega⟩ hin

theorem same_rest {b : Nat} (hb : b ∈ layout.covered) {y : Nat}
    (hle : b + vacantIn layout m b Cursor.firstRecord ≤ y) (hy : layout.InBlock b y) :
    m' y = m y := by
  obtain ⟨front, parent, a, hparent, -, ha, hsame, -, hrest⟩ := rewritten.confined mapped
  by_cases hba : b = a
  · exact hrest y (hba ▸ hle)
  · exact hsame y fun hin =>
      hba (regular.eq_of_inBlock hb ((mapped.intact hparent).covered ha) hy hin)

/-- No byte of a file changes. -/
theorem same_of_file (h : branches names' = some branch') (hfile : ¬ branch'.node.isDirectory)
    {b : Nat} (hb : b ∈ branch'.chain) {y : Nat} (hy : layout.InBlock b y) : m' y = m y := by
  obtain ⟨front, parent, a, hparent, hkind, ha, hsame, -⟩ := rewritten.confined mapped
  refine hsame y fun hin => hfile ?_
  obtain rfl := regular.eq_of_inBlock ((mapped.intact h).covered hb)
    ((mapped.intact hparent).covered ha) hy hin
  obtain rfl := mapped.apart hparent h ha hb
  obtain rfl := Option.some.inj (hparent.symm.trans h)
  exact hkind

theorem payload_eq (h : branches names' = some branch') (hfile : ¬ branch'.node.isDirectory) :
    payload layout m' branch'.chain = payload layout m branch'.chain :=
  payload_congr regular fun _ hb _ _ hy => rewritten.same_of_file mapped regular h hfile hb hy

theorem intact (h : branches names' = some branch') : Intact layout m' branch'.chain := by
  have intact := mapped.intact h
  refine intact.congr (fun b hb => target_congr fun i hi => ?_) fun b hb => ?_
  · exact rewritten.same_link mapped regular (intact.covered hb) hi
  · rw [rewritten.marked_eq mapped regular]
    exact intact.marked b hb

/-- The entries of a directory change only in size and mtime, and its blocks have the same room. -/
theorem entries_eq (h : branches names' = some branch') :
    entries layout m' branch'.chain
        = (entries layout m branch'.chain).map (Node.restat x size mtime) ∧
      ∀ b ∈ branch'.chain, vacantIn layout m' b Cursor.firstRecord
        = vacantIn layout m b Cursor.firstRecord := by
  obtain ⟨front, name, parent, a, rfl, hparent, -, hmem, ha, hle, hend, -⟩ :=
    mapped.exists_block rewritten.branch_eq rewritten.record_eq
  have hcovered : ∀ b ∈ branch'.chain, b ∈ layout.covered :=
    fun b hb => (mapped.intact h).covered hb
  have hheader : Record.headerSize = 18 := rfl
  have hsizeOffset : Record.sizeOffset = 5 := rfl
  have hnameOffset : Record.nameSizeOffset = 17 := rfl
  rw [Record.encodedSize] at hend
  by_cases hblock : a ∈ branch'.chain
  · obtain rfl := mapped.apart hparent h ha hblock
    obtain rfl := Option.some.inj (hparent.symm.trans h)
    rw [← rewritten.size_eq, ← rewritten.mtime_eq]
    exact Directory.entries_restat regular hcovered hmem rewritten.record_eq rewritten.same
  · -- the record is in none of these blocks
    have hother : ∀ b ∈ branch'.chain, ∀ y, b + Cursor.firstRecord ≤ y → layout.InBlock b y →
        m' y = m y := by
      rintro b hb y - ⟨hby, hyb⟩
      have hne : b ≠ a := fun heq => hblock (heq ▸ hb)
      have := regular.apart_of_mem (hcovered b hb) ((mapped.intact hparent).covered ha) hne
      exact rewritten.same y (by omega)
    refine ⟨?_, fun b hb => (nodesFrom_congr (hother b hb)).2⟩
    rw [entries_congr hother]
    symm
    refine (List.map_congr_left fun other hentry => ?_).trans (List.map_id _)
    refine Node.restat_of_ne fun hx' => hblock ?_
    obtain ⟨b, hb, hle', hend', -⟩ := inBlock_of_recordAddress hentry hx'
    rw [Record.encodedSize] at hend'
    have heq := regular.eq_of_inBlock (hcovered b hb) ((mapped.intact hparent).covered ha) (x := x)
      ⟨by omega, by omega⟩ ⟨by omega, by omega⟩
    exact heq ▸ hb

theorem names_eq (h : branches names' = some branch') :
    (entries layout m' branch'.chain).map (·.record.name)
      = (entries layout m branch'.chain).map (·.record.name) := by
  rw [(rewritten.entries_eq mapped regular h).1, List.map_map]
  exact List.map_congr_left fun node _ => Node.name_restat

/-- A directory stays in order. -/
theorem orderly (h : branches names' = some branch') (hkind : branch'.node.isDirectory) :
    Orderly layout m' branch'.chain := by
  have orderly := mapped.orderly h hkind
  obtain ⟨hentries, hvacant⟩ := rewritten.entries_eq mapped regular h
  refine ⟨?_, ?_, ?_⟩
  · rw [rewritten.names_eq mapped regular h]
    exact orderly.nodup
  · intro node hnode
    rw [hentries] at hnode
    obtain ⟨node', hnode', rfl⟩ := List.mem_map.mp hnode
    rw [Node.name_restat]
    exact orderly.valid node' hnode'
  · intro last hlast y hy hin
    have hmem := List.mem_of_getLast? hlast
    rw [hvacant last hmem] at hy
    rw [rewritten.same_rest mapped regular ((mapped.intact h).covered hmem) hy hin]
    exact orderly.zero last hlast y hy hin

/-- A file stays zero behind its end. -/
theorem zero (h : branches names' = some branch') (hfile : ¬ branch'.node.isDirectory) {i : Nat}
    (hi : (branch'.node.restat x size mtime).record.size.toNat ≤ i) :
    payload layout m' branch'.chain i = 0 := by
  rw [rewritten.payload_eq mapped regular h hfile]
  refine mapped.zero h hfile i ?_
  by_cases hx : branch'.node.recordAddress = some x
  · obtain rfl := mapped.eq_of_recordAddress regular rewritten.branch_eq h rewritten.record_eq hx
    obtain rfl := Option.some.inj (rewritten.branch_eq.symm.trans h)
    rw [Node.restat_of_eq hx] at hi
    exact Nat.le_trans (rewritten.grown hfile) hi
  · rwa [Node.restat_of_ne hx] at hi

/-- Names lead to the same entries, one of them with another size and mtime. -/
theorem child (names' : List String) (name : String) :
    (branches.restat x size mtime (names' ++ [name])).map Branch.node =
      (branches.restat x size mtime names').bind fun branch =>
        (branch.children layout m').find? (·.record.name = name) := by
  have hleft : (branches.restat x size mtime (names' ++ [name])).map Branch.node
      = ((branches (names' ++ [name])).map Branch.node).map (Node.restat x size mtime) := by
    rw [Branches.restat, Option.map_map, Option.map_map]
    rfl
  rw [hleft, mapped.child names' name, Branches.restat, Option.bind_map, Option.map_bind]
  rcases hbranch : branches names' with _ | branch'
  · rfl
  · simp only [Option.bind_some, Function.comp_apply, Branch.children, Node.isDirectory_restat]
    split
    · have hsame : (fun node : Node => decide (node.record.name = name)) ∘ Node.restat x size mtime
          = fun node => decide (node.record.name = name) := by
        funext node
        rw [Function.comp_apply, Node.name_restat]
      rw [(rewritten.entries_eq mapped regular hbranch).1, List.find?_map, hsame]
    · rfl

theorem mapped_restat : Mapped layout m' (branches.restat x size mtime) where
  root := by
    obtain ⟨chain, hchain⟩ := mapped.root
    exact ⟨chain, by rw [Branches.restat, hchain]; rfl⟩
  intact hrestated := by
    obtain ⟨branch', h, rfl⟩ := Option.map_eq_some_iff.mp hrestated
    exact (rewritten.intact mapped regular h :)
  first hrestated := by
    obtain ⟨branch', h, rfl⟩ := Option.map_eq_some_iff.mp hrestated
    rw [Node.address_restat]
    exact mapped.first h
  apart hrestated hrestated' hb hb' := by
    obtain ⟨branch', h, rfl⟩ := Option.map_eq_some_iff.mp hrestated
    obtain ⟨branch'', h', rfl⟩ := Option.map_eq_some_iff.mp hrestated'
    exact mapped.apart h h' hb hb'
  child := rewritten.child mapped regular
  orderly hrestated hkind := by
    obtain ⟨branch', h, rfl⟩ := Option.map_eq_some_iff.mp hrestated
    rw [Node.isDirectory_restat] at hkind
    exact (rewritten.orderly mapped regular h hkind :)
  zero hrestated hfile i hi := by
    obtain ⟨branch', h, rfl⟩ := Option.map_eq_some_iff.mp hrestated
    rw [Node.isDirectory_restat] at hfile
    exact rewritten.zero mapped regular h hfile hi

/-- New bytes for size and mtime of a record change one branch, and only in these. -/
theorem mapped_stamp : Mapped layout m' (branches.modify names (Branch.stamp size mtime)) := by
  rw [← rewritten.restat_eq_modify mapped regular]
  exact rewritten.mapped_restat mapped regular

end

end Rewritten

/-! ## A chain that goes on -/

/-- Nodes stay as they are. -/
theorem Branches.map_node_extend (branches : Branches) (names names' : List String)
    (added : List Nat) : (branches.modify names (Branch.extend added) names').map Branch.node
      = (branches names').map Branch.node := by
  rw [modify, Option.map_map]
  congr 1
  funext branch
  rw [Function.comp_apply]
  split <;> rfl

namespace Orderly

variable {chain added : List Nat}

/-- A directory whose bytes stay as they are stays in order. -/
theorem congr (orderly : Orderly layout m chain)
    (h : ∀ a ∈ chain, ∀ x, a + Layout.linkSize ≤ x → layout.InBlock a x → m' x = m x) :
    Orderly layout m' chain := by
  have hentries := entries_congr h
  refine ⟨hentries ▸ orderly.nodup, hentries ▸ orderly.valid, fun last hlast x hle hx => ?_⟩
  have hmem := List.mem_of_getLast? hlast
  have hge := vacantIn_ge layout m last Cursor.firstRecord
  have hvacant : vacantIn layout m' last Cursor.firstRecord
      = vacantIn layout m last Cursor.firstRecord :=
    (nodesFrom_congr (h last hmem)).2
  rw [hvacant] at hle
  rw [h last hmem x (Nat.le_trans (Nat.add_le_add_left hge last) hle) hx]
  exact orderly.zero last hlast x hle hx

/-- A chain that goes on with the same payload has the same entries. -/
theorem entries_extend (regular : layout.Regular)
    (h : payload layout m' (chain ++ added) = payload layout m chain) :
    entries layout m' (chain ++ added) = entries layout m chain := by
  rw [entries_append, entries_congr (same_of_payload h)]
  have hnone : entries layout m' added = [] := by
    refine List.flatMap_eq_nil_iff.mpr fun a ha => ?_
    exact (nodesFrom_zero fun x hle hx => zero_of_payload regular h a ha x hle hx).1
  rw [hnone, List.append_nil]

/-- A directory that goes on with the same payload stays in order. -/
theorem extend (orderly : Orderly layout m chain) (regular : layout.Regular)
    (h : payload layout m' (chain ++ added) = payload layout m chain) :
    Orderly layout m' (chain ++ added) := by
  have hentries := entries_extend regular h
  refine ⟨hentries ▸ orderly.nodup, hentries ▸ orderly.valid, fun last hlast x hle hx => ?_⟩
  rcases List.eq_nil_or_concat added with rfl | ⟨front, b, rfl⟩
  · rw [List.append_nil] at hlast
    exact (orderly.congr (same_of_payload h)).zero last hlast x hle hx
  · have hge := vacantIn_ge layout m' last Cursor.firstRecord
    have hlink : Cursor.firstRecord = Layout.linkSize := rfl
    have hb : last = b := by
      rw [List.concat_eq_append, ← List.append_assoc, List.getLast?_concat] at hlast
      exact (Option.some.inj hlast).symm
    refine zero_of_payload regular h last (by simp [hb]) x (by omega) hx

end Orderly

theorem Mapped.root_extend {branches : Branches} (mapped : Mapped layout m branches)
    (names : List String) (added : List Nat) :
    ∃ chain, branches.modify names (Branch.extend added) [] = some ⟨Node.root layout, chain⟩ := by
  obtain ⟨chain, hchain⟩ := mapped.root
  have hnode := Branches.map_node_extend branches names [] added
  rw [hchain] at hnode
  rcases hroot : branches.modify names (Branch.extend added) [] with _ | ⟨node, chain'⟩
  · rw [hroot] at hnode
    cases hnode
  · rw [hroot] at hnode
    obtain rfl : node = Node.root layout := Option.some.inj hnode
    exact ⟨chain', rfl⟩

/-- A write to the chain of a branch, which may go on with the blocks `added`. A directory keeps its
payload, and a file stays zero behind its end. -/
structure Extension (layout : Layout) (m m' : Content) (branches : Branches) (names : List String)
    (branch : Branch) (added spare : List Nat) (counted : Nat) (p : Content) : Prop where
  branch_eq : branches names = some branch
  written : Written layout m branch.chain added spare counted p m'
  directory : branch.node.isDirectory → p = payload layout m branch.chain
  file : ¬ branch.node.isDirectory → ∀ i, branch.node.record.size.toNat ≤ i → p i = 0

namespace Extension

variable {branches : Branches} {names names' : List String} {branch branch' : Branch}
  {added spare : List Nat} {counted : Nat} {p : Content}
  (extension : Extension layout m m' branches names branch added spare counted p)
include extension

/-- A branch afterwards is the one that goes on, or one from before. -/
theorem cases (h : branches.modify names (Branch.extend added) names' = some branch') :
    (names' = names ∧ branch' = Branch.extend added branch) ∨
      names' ≠ names ∧ branches names' = some branch' :=
  Branches.modify_cases extension.branch_eq h

theorem payload_eq (hkind : branch.node.isDirectory) :
    payload layout m' (branch.chain ++ added) = payload layout m branch.chain :=
  extension.written.payload_eq.trans (extension.directory hkind)

variable (mapped : Mapped layout m branches)
include mapped

/-- A block that was added was in no chain before. -/
theorem fresh {a : Nat} (h : branches names' = some branch') (ha : a ∈ branch'.chain) :
    a ∉ added := fun hadded =>
  extension.written.growth.fresh a (List.mem_append_left _ hadded) ((mapped.intact h).marked a ha)

theorem apart {names'' : List String} {branch'' : Branch} {a : Nat}
    (h' : branches.modify names (Branch.extend added) names' = some branch')
    (h'' : branches.modify names (Branch.extend added) names'' = some branch'')
    (ha : a ∈ branch'.chain) (ha' : a ∈ branch''.chain) : names' = names'' := by
  have hbranch := extension.branch_eq
  rcases extension.cases h' with ⟨rfl, rfl⟩ | ⟨-, hb⟩ <;>
    rcases extension.cases h'' with ⟨rfl, rfl⟩ | ⟨-, hb'⟩
  · rfl
  · rcases List.mem_append.mp ha with ha | ha
    · exact mapped.apart hbranch hb' ha ha'
    · exact absurd ha (extension.fresh mapped hb' ha')
  · rcases List.mem_append.mp ha' with ha' | ha'
    · exact mapped.apart hb hbranch ha ha'
    · exact absurd ha' (extension.fresh mapped hb ha)
  · exact mapped.apart hb hb' ha ha'

variable (regular : layout.Regular)
include regular

/-- No byte of the other chains changes. -/
theorem same_of_ne (h : branches names' = some branch') (hne : names' ≠ names) :
    ∀ a ∈ branch'.chain, ∀ x, layout.InBlock a x → m' x = m x := fun a ha _ hx =>
  extension.written.growth.same_of_marked regular ((mapped.intact h).marked a ha)
    (fun ha' => hne (mapped.apart h extension.branch_eq ha ha')) hx

/-- Names lead where they led before. -/
theorem child (names' : List String) (name : String) :
    (branches.modify names (Branch.extend added) (names' ++ [name])).map Branch.node =
      (branches.modify names (Branch.extend added) names').bind fun branch =>
        (branch.children layout m').find? (·.record.name = name) := by
  have hbranch := extension.branch_eq
  rw [Branches.map_node_extend, mapped.child]
  rcases hbranch' : branches names' with _ | branch'
  · rw [Branches.modify_none hbranch']
    rfl
  · by_cases hnames : names' = names
    · subst hnames
      obtain rfl := Option.some.inj (hbranch'.symm.trans hbranch)
      rw [Branches.modify_self hbranch, Option.bind_some, Option.bind_some, Branch.children,
        Branch.children, Branch.node_extend, Branch.chain_extend]
      split
      · rename_i hkind
        rw [Orderly.entries_extend regular (extension.payload_eq hkind)]
      · rfl
    · have hsame := extension.same_of_ne mapped regular hbranch' hnames
      rw [Branches.modify_of_ne hnames, hbranch', Option.bind_some, Option.bind_some,
        Branch.children, Branch.children, entries_congr fun a ha x _ hx => hsame a ha x hx]

/-- The branch goes on, and the others stay as they are. -/
theorem mapped_extend : Mapped layout m' (branches.modify names (Branch.extend added)) where
  root := mapped.root_extend names added
  intact h := by
    rcases extension.cases h with ⟨rfl, rfl⟩ | ⟨hne, hb⟩
    · exact extension.written.intact
    · exact (mapped.intact hb).of_growth regular extension.written.growth
        fun a ha ha' => hne (mapped.apart hb extension.branch_eq ha ha')
  first h := by
    rcases extension.cases h with ⟨rfl, rfl⟩ | ⟨hne, hb⟩
    · have hfirst := mapped.first extension.branch_eq
      have hlength := (List.getElem?_eq_some_iff.mp hfirst).1
      rw [Branch.chain_extend, List.getElem?_append_left hlength]
      exact hfirst
    · exact mapped.first hb
  apart := extension.apart mapped
  child := extension.child mapped regular
  orderly h hkind := by
    rcases extension.cases h with ⟨rfl, rfl⟩ | ⟨hne, hb⟩
    · exact (mapped.orderly extension.branch_eq hkind).extend regular (extension.payload_eq hkind)
    · have hsame := extension.same_of_ne mapped regular hb hne
      exact (mapped.orderly hb hkind).congr fun a ha x _ hx => hsame a ha x hx
  zero h hfile i hi := by
    rcases extension.cases h with ⟨rfl, rfl⟩ | ⟨hne, hb⟩
    · rw [Branch.chain_extend, extension.written.payload_eq]
      exact extension.file hfile i hi
    · have hsame := extension.same_of_ne mapped regular hb hne
      rw [payload_congr regular fun a ha x _ hx => hsame a ha x hx]
      exact mapped.zero hb hfile i hi

end Extension

/-- Blocks that are taken change nothing yet. -/
theorem Mapped.of_growth {branches : Branches} (mapped : Mapped layout m branches)
    (regular : layout.Regular) {taken : List Nat} {counted : Nat}
    (growth : Growth layout m [] taken counted m') : Mapped layout m' branches := by
  obtain ⟨chain, hroot⟩ := mapped.root
  have written := Written.of_growth regular (mapped.intact hroot) growth
  have extension : Extension layout m m' branches [] _ [] taken counted _ :=
    ⟨hroot, written, fun _ => rfl, fun hkind => absurd rfl hkind⟩
  have mapped' := extension.mapped_extend mapped regular
  rwa [Branch.extend_nil, Branches.modify_id] at mapped'

/-! ## A new entry -/

/-- A zero block that is in use but not by any branch. -/
structure Unused (layout : Layout) (m : Content) (branches : Branches) (b : Nat) : Prop where
  marked : b ∈ marked layout m
  apart : ∀ {names branch}, branches names = some branch → b ∉ branch.chain
  zero : ∀ x, layout.InBlock b x → m x = 0

namespace Unused

variable {branches : Branches} {b : Nat}

theorem covered (unused : Unused layout m branches b) : b ∈ layout.covered :=
  marked_subset_covered unused.marked

/-- Such a block is a chain. -/
theorem intact (unused : Unused layout m branches b) (regular : layout.Regular) :
    Intact layout m [b] := by
  have hge := regular.blockSize_ge
  refine ⟨List.cons_ne_nil _ _, fun k a ha => ?_, List.nodup_singleton b, by
    simpa using unused.marked⟩
  obtain ⟨rfl, rfl⟩ : k = 0 ∧ b = a := by
    rcases k with _ | k
    · exact ⟨rfl, Option.some.inj ha⟩
    · cases ha
  exact target_zero fun i hi => unused.zero _ ⟨by omega, by omega⟩

/-- It holds no entries. -/
theorem entries_eq (unused : Unused layout m branches b) : entries layout m [b] = [] := by
  rw [entries_cons, entries_nil, List.append_nil]
  exact (nodesFrom_zero fun x _ hx => unused.zero x hx).1

/-- As a directory it is in order. -/
theorem orderly (unused : Unused layout m branches b) : Orderly layout m [b] := by
  have hentries := unused.entries_eq
  refine ⟨by rw [hentries]; exact .nil, by simp [hentries], fun last hlast x _ hx => ?_⟩
  obtain rfl : b = last := Option.some.inj hlast
  exact unused.zero x hx

/-- As a file it is zero throughout. -/
theorem payload_eq (unused : Unused layout m branches b) (regular : layout.Regular) (i : Nat) :
    payload layout m [b] i = 0 := by
  have hsum := payloadSize_add regular
  have hlt := Nat.mod_lt i (payloadSize_pos regular)
  unfold payload
  split
  · rename_i a ha
    obtain rfl : a = b := by simpa using List.mem_of_getElem? ha
    exact unused.zero _ ⟨by omega, by omega⟩
  · rfl

end Unused

/-- A free block that was taken and cleared is unused. -/
theorem Unused.of_growth {branches : Branches} {b : Nat} (mapped : Mapped layout m branches)
    (growth : Growth layout m [] [b] 1 m') (hzero : ∀ x, layout.InBlock b x → m' x = 0) :
    Unused layout m' branches b where
  marked := growth.taken_marked (List.mem_singleton_self b)
  apart h hb := growth.fresh b (List.mem_singleton_self b) ((mapped.intact h).marked b hb)
  zero := hzero

/-- A chain that goes on leaves an unused block alone. -/
theorem Unused.extend {branches : Branches} {b : Nat} {names : List String} {branch : Branch}
    {added spare : List Nat} {counted : Nat} {p : Content} (unused : Unused layout m branches b)
    (regular : layout.Regular) (h : branches names = some branch)
    (written : Written layout m branch.chain added spare counted p m') :
    Unused layout m' (branches.modify names (Branch.extend added)) b where
  marked := written.growth.marked_mono unused.marked
  apart h' hb := by
    rcases Branches.modify_cases h h' with ⟨-, rfl⟩ | ⟨-, h'⟩
    · rcases List.mem_append.mp hb with hb | hb
      · exact unused.apart h hb
      · exact written.growth.fresh b (List.mem_append_left _ hb) unused.marked
    · exact unused.apart h' hb
  zero x hx := by
    rw [written.growth.same_of_marked regular unused.marked (unused.apart h) hx]
    exact unused.zero x hx

/-- Where the next record of a directory would stand, behind the last one of its last block. -/
def freeAddress (layout : Layout) (m : Content) (last : Nat) : Nat :=
  last + vacantIn layout m last Cursor.firstRecord

/-- A new record behind the end of a directory, and what it needs. -/
structure Addition (layout : Layout) (m : Content) (branches : Branches) (names : List String)
    (parent : Branch) (last : Nat) (record : Record) : Prop where
  parent_eq : branches names = some parent
  isDirectory : parent.node.isDirectory
  last_eq : parent.chain.getLast? = some last
  unused : Unused layout m branches record.address
  size_eq : record.size = 0
  valid : validateName record.name = .ok ()
  new : (entries layout m parent.chain).find? (·.record.name = record.name) = none
  room : vacantIn layout m last Cursor.firstRecord + record.encodedSize ≤ layout.blockSize

namespace Addition

variable {branches : Branches} {names : List String} {parent : Branch} {last : Nat}
  {record : Record} {bytes : ByteArray}

theorem encodable (addition : Addition layout m branches names parent last record)
    (regular : layout.Regular) : record.Encodable layout.blockSize :=
  encodable_of_valid regular addition.valid addition.unused.covered

theorem address_ne_zero (addition : Addition layout m branches names parent last record)
    (regular : layout.Regular) : record.address ≠ 0 :=
  Nat.ne_of_gt (regular.pos_of_mem addition.unused.covered)

variable (addition : Addition layout m branches names parent last record)
  (mapped : Mapped layout m branches) (regular : layout.Regular)
include addition

theorem last_mem : last ∈ parent.chain :=
  List.mem_of_getLast? addition.last_eq

include mapped

theorem last_covered : last ∈ layout.covered :=
  (mapped.intact addition.parent_eq).covered addition.last_mem

/-- The name is new. -/
theorem branches_eq : branches (names ++ [record.name]) = none := by
  have hchild := mapped.child names record.name
  rw [addition.parent_eq, Option.bind_some, Branch.children, if_pos addition.isDirectory,
    addition.new] at hchild
  exact Option.map_eq_none_iff.mp hchild

variable (hbytes : record.encode layout.blockSize = .ok bytes)
include regular hbytes

theorem growth :
    Growth layout m [last] [] 0 (m.put (freeAddress layout m last) bytes) := by
  have hsize := Record.size_of_encode (addition.encodable regular) hbytes
  have hroom := addition.room
  refine .of_put regular m _ bytes (addition.last_covered mapped) ?_ ?_
  · exact Nat.le_add_right ..
  · rw [hsize, freeAddress]
    omega

/-- Nothing else changes, neither in other blocks nor in the link of this one. -/
theorem same {a y : Nat} (ha : a ∈ layout.covered) (hy : layout.InBlock a y)
    (h : a ≠ last ∨ y < a + Layout.linkSize) :
    m.put (freeAddress layout m last) bytes y = m y := by
  have hsize := Record.size_of_encode (addition.encodable regular) hbytes
  have hroom := addition.room
  have hge := vacantIn_ge layout m last Cursor.firstRecord
  have hfirst : Cursor.firstRecord = Layout.linkSize := rfl
  obtain ⟨hle, hlt⟩ := hy
  by_cases hne : a = last
  · exact Content.put_outside m (by rw [freeAddress]; omega)
  · have hapart := regular.apart_of_mem ha (addition.last_covered mapped) hne
    exact Content.put_outside m (by rw [freeAddress]; omega)

theorem same_of_ne {names' : List String} {branch' : Branch} (h : branches names' = some branch')
    (hne : names' ≠ names) :
    ∀ a ∈ branch'.chain, ∀ y, layout.InBlock a y →
      m.put (freeAddress layout m last) bytes y = m y := by
  intro a ha y hy
  refine addition.same mapped regular hbytes ((mapped.intact h).covered ha) hy (.inl ?_)
  rintro rfl
  exact hne (mapped.apart h addition.parent_eq ha (addition.last_mem))

/-- Chains stay as they are. -/
theorem intact_of_branch {names' : List String} {branch' : Branch}
    (h : branches names' = some branch') :
    Intact layout (m.put (freeAddress layout m last) bytes) branch'.chain := by
  have hge := regular.blockSize_ge
  have intact := mapped.intact h
  refine intact.congr (fun a ha => target_congr fun i hi => ?_) fun a ha =>
    (addition.growth mapped regular hbytes).marked_mono (intact.marked a ha)
  exact addition.same mapped regular hbytes (intact.covered ha) ⟨by omega, by omega⟩
    (.inr (Nat.add_lt_add_left hi a))

theorem unused_put :
    Unused layout (m.put (freeAddress layout m last) bytes) branches record.address := by
  obtain ⟨hmarked, hapart, hzero⟩ := addition.unused
  refine ⟨(addition.growth mapped regular hbytes).marked_mono hmarked, hapart, fun y hy => ?_⟩
  rw [addition.same mapped regular hbytes addition.unused.covered hy]
  · exact hzero y hy
  · left
    rintro rfl
    exact hapart addition.parent_eq (addition.last_mem)

theorem entries_put :
    entries layout (m.put (freeAddress layout m last) bytes) parent.chain
      = entries layout m parent.chain ++ [⟨record, some (freeAddress layout m last)⟩] :=
  have intact := mapped.intact addition.parent_eq
  Directory.entries_put regular (fun _ ha => intact.covered ha) intact.nodup addition.last_eq
    (addition.encodable regular) (addition.address_ne_zero regular) hbytes
    ((mapped.orderly addition.parent_eq addition.isDirectory).zero last addition.last_eq)
    addition.room

theorem orderly_put :
    Orderly layout (m.put (freeAddress layout m last) bytes) parent.chain := by
  have orderly := mapped.orderly addition.parent_eq addition.isDirectory
  have hentries := addition.entries_put mapped regular hbytes
  have hsize := Record.size_of_encode (addition.encodable regular) hbytes
  refine ⟨?_, ?_, ?_⟩
  · rw [hentries, List.map_append]
    refine List.nodup_append.mpr ⟨orderly.nodup, List.nodup_singleton _, ?_⟩
    rintro name hname other hother rfl
    obtain ⟨node, hnode, rfl⟩ := List.mem_map.mp hname
    have hnot := List.find?_eq_none.mp addition.new node hnode
    exact hnot (by simpa using hother)
  · intro node hnode
    rw [hentries] at hnode
    rcases List.mem_append.mp hnode with hnode | hnode
    · exact orderly.valid node hnode
    · rw [List.mem_singleton.mp hnode]
      exact addition.valid
  · -- the free rest begins behind the new record now
    intro last' hlast' y hy hin
    obtain rfl : last = last' := Option.some.inj (addition.last_eq.symm.trans hlast')
    have hvacant := (nodesFrom_put (addition.encodable regular)
      (addition.address_ne_zero regular) hbytes
      (orderly.zero last addition.last_eq) addition.room).2
    rw [freeAddress] at hy ⊢
    rw [hvacant] at hy
    rw [Content.put_outside m (by omega)]
    exact orderly.zero last addition.last_eq y (by omega) hin

end Addition

/-- The branch of a new record. -/
abbrev newBranch (layout : Layout) (m : Content) (last : Nat) (record : Record) : Branch :=
  ⟨⟨record, some (freeAddress layout m last)⟩, [record.address]⟩

namespace Addition

variable {branches : Branches} {names names' : List String} {parent branch' : Branch} {last : Nat}
  {record : Record} {bytes : ByteArray}
  (addition : Addition layout m branches names parent last record)

/-- A branch afterwards is the new one, or one from before. -/
theorem cases (h : Function.update branches (names ++ [record.name])
    (some (newBranch layout m last record)) names' = some branch') :
    (names' = names ++ [record.name] ∧ branch' = newBranch layout m last record) ∨
      branches names' = some branch' := by
  by_cases hnames : names' = names ++ [record.name]
  · subst hnames
    rw [Function.update_self] at h
    exact .inl ⟨rfl, (Option.some.inj h).symm⟩
  · rw [Function.update_of_ne hnames] at h
    exact .inr h

include addition

theorem apart (mapped : Mapped layout m branches) {names'' : List String} {branch'' : Branch}
    {a : Nat}
    (h' : Function.update branches (names ++ [record.name])
      (some (newBranch layout m last record)) names' = some branch')
    (h'' : Function.update branches (names ++ [record.name])
      (some (newBranch layout m last record)) names'' = some branch'')
    (ha : a ∈ branch'.chain) (ha' : a ∈ branch''.chain) : names' = names'' := by
  rcases cases h' with ⟨rfl, rfl⟩ | hb <;> rcases cases h'' with ⟨rfl, rfl⟩ | hb'
  · rfl
  · rw [List.mem_singleton] at ha
    exact absurd (ha ▸ ha') (addition.unused.apart hb')
  · rw [List.mem_singleton] at ha'
    exact absurd (ha' ▸ ha) (addition.unused.apart hb)
  · exact mapped.apart hb hb' ha ha'

variable (mapped : Mapped layout m branches) (regular : layout.Regular)
  (hbytes : record.encode layout.blockSize = .ok bytes)
include mapped regular hbytes

/-- The children of the directory afterwards are those from before and the new one. -/
theorem find_children (name : String) :
    (parent.children layout (m.put (freeAddress layout m last) bytes)).find?
        (·.record.name = name) =
      if name = record.name then some (newBranch layout m last record).node
      else (parent.children layout m).find? (·.record.name = name) := by
  have hkind := addition.isDirectory
  rw [Branch.children, if_pos hkind, Branch.children, if_pos hkind,
    addition.entries_put mapped regular hbytes, List.find?_append]
  split
  · rename_i hname
    subst hname
    rw [addition.new]
    simp
  · rename_i hname
    have hother : record.name ≠ name := fun heq => hname heq.symm
    simp [hother]

/-- The new name leads to the new entry, which has no entries of its own, and the other names lead
where they led before. -/
theorem child (names' : List String) (name : String) :
    (Function.update branches (names ++ [record.name]) (some (newBranch layout m last record))
        (names' ++ [name])).map Branch.node =
      (Function.update branches (names ++ [record.name]) (some (newBranch layout m last record))
        names').bind fun branch =>
        (branch.children layout (m.put (freeAddress layout m last) bytes)).find?
          (·.record.name = name) := by
  have hne : names ≠ names ++ [record.name] := by simp
  by_cases hnames : names' = names
  · -- in the directory itself there is one more child
    subst hnames
    rw [Function.update_of_ne hne, addition.parent_eq, Option.bind_some,
      addition.find_children mapped regular hbytes]
    split
    · rename_i hname
      subst hname
      rw [Function.update_self, Option.map_some]
    · rename_i hname
      rw [Function.update_of_ne (by simpa using hname), mapped.child, addition.parent_eq,
        Option.bind_some]
  · have hnew : names' ++ [name] ≠ names ++ [record.name] :=
      fun heq => hnames (List.append_inj' heq rfl).1
    rw [Function.update_of_ne hnew]
    by_cases hbelow : names' = names ++ [record.name]
    · -- the new entry has no children, and before there was nothing
      subst hbelow
      rw [mapped.none_of_none (addition.branches_eq mapped), Function.update_self, Option.bind_some,
        Branch.children, (addition.unused_put mapped regular hbytes).entries_eq]
      split <;> rfl
    · rw [Function.update_of_ne hbelow, mapped.child]
      rcases hbranch : branches names' with _ | branch'
      · rfl
      · have hsame := addition.same_of_ne mapped regular hbytes hbranch hnames
        rw [Option.bind_some, Option.bind_some, Branch.children, Branch.children,
          entries_congr fun a ha y _ hy => hsame a ha y hy]

/-- Directories stay in order. -/
theorem orderly_of_branch (h : branches names' = some branch') (hkind : branch'.node.isDirectory) :
    Orderly layout (m.put (freeAddress layout m last) bytes) branch'.chain := by
  by_cases hnames : names' = names
  · subst hnames
    obtain rfl := Option.some.inj (h.symm.trans addition.parent_eq)
    exact addition.orderly_put mapped regular hbytes
  · have hsame := addition.same_of_ne mapped regular hbytes h hnames
    exact (mapped.orderly h hkind).congr fun a ha y _ hy => hsame a ha y hy

/-- Files keep their bytes. -/
theorem payload_of_file (h : branches names' = some branch') (hfile : ¬ branch'.node.isDirectory) :
    payload layout (m.put (freeAddress layout m last) bytes) branch'.chain
      = payload layout m branch'.chain := by
  have hnames : names' ≠ names := by
    rintro rfl
    obtain rfl := Option.some.inj (h.symm.trans addition.parent_eq)
    exact hfile addition.isDirectory
  have hsame := addition.same_of_ne mapped regular hbytes h hnames
  exact payload_congr regular fun a ha y _ hy => hsame a ha y hy

/-- The new record makes the new block a branch. -/
theorem mapped_create :
    Mapped layout (m.put (freeAddress layout m last) bytes)
      (Function.update branches (names ++ [record.name])
        (some (newBranch layout m last record))) where
  root := by
    obtain ⟨chain, hchain⟩ := mapped.root
    exact ⟨chain, by rw [Function.update_of_ne (by simp), hchain]⟩
  intact h := by
    rcases cases h with ⟨-, rfl⟩ | hb
    · exact (addition.unused_put mapped regular hbytes).intact regular
    · exact addition.intact_of_branch mapped regular hbytes hb
  first h := by
    rcases cases h with ⟨-, rfl⟩ | hb
    · rfl
    · exact mapped.first hb
  apart := addition.apart mapped
  child := addition.child mapped regular hbytes
  orderly h hkind := by
    rcases cases h with ⟨-, rfl⟩ | hb
    · exact (addition.unused_put mapped regular hbytes).orderly
    · exact addition.orderly_of_branch mapped regular hbytes hb hkind
  zero h hfile i hi := by
    rcases cases h with ⟨-, rfl⟩ | hb
    · exact (addition.unused_put mapped regular hbytes).payload_eq regular i
    · rw [addition.payload_of_file mapped regular hbytes hb hfile]
      exact mapped.zero hb hfile i hi

end Addition

end ChainFs.Volume
