import ChainFs.Proofs.Volume.Runs

/-!
# Integrity

What a volume looks like to someone who knows nothing but how to read it: how to follow the links of
a chain, and how to list a directory.

* `Chain.Follows` — the blocks that the links lead through from an address on;
* `Volume.Reachable` — the nodes found by listing directories, from the root on;
* `Volume.Integrity` — all chains end, their blocks are in use and none of them is met twice, and
  names are different and valid;
* `Volume.integrity_of_run` — every run of calls on a new volume keeps its integrity.

Branches are a way to speak of a volume that only the proofs know. In this file they are given up
again: the statement is about links and listings, and branches are what it is shown with.
-/

namespace ChainFs

open Store Bitmap Directory

namespace Chain

variable {σ : Type} [Store σ] {layout : Layout} {store : σ}

/-- From an address on the links lead through exactly these blocks, and then nowhere. -/
def Follows (layout : Layout) (store : σ) : Nat → List Nat → Prop
  | address, [] => address = 0
  | address, a :: rest =>
    address = a ∧ a ≠ 0 ∧
      ∃ target, next layout store a = .ok target ∧ Follows layout store target rest

/-- The links leave no choice. -/
theorem Follows.unique {address : Nat} {chain chain' : List Nat}
    (h : Follows layout store address chain) (h' : Follows layout store address chain') :
    chain = chain' := by
  induction chain generalizing address chain' with
  | nil =>
    cases chain' with
    | nil => rfl
    | cons b rest' =>
      obtain ⟨rfl, hne, -⟩ := h'
      exact absurd h hne
  | cons a rest ih =>
    obtain ⟨rfl, hne, target, htarget, hrest⟩ := h
    cases chain' with
    | nil => exact absurd h' hne
    | cons b rest' =>
      obtain ⟨rfl, -, target', htarget', hrest'⟩ := h'
      obtain rfl := Except.ok.inj (htarget.symm.trans htarget')
      rw [ih hrest hrest']

variable [Faithful σ]

/-- Linked blocks are followed to the end. -/
theorem Linked.follows (regular : layout.Regular) (hsize : layout.endAddress ≤ Store.size store)
    {a : Nat} {rest : List Nat} (linked : Linked layout (content store) (a :: rest))
    (hcovered : ∀ b ∈ a :: rest, b ∈ layout.covered) :
    Follows layout store a (a :: rest) := by
  induction rest generalizing a with
  | nil =>
    have htarget : target layout (content store) a = 0 := linked 0 a rfl
    have ha := hcovered a (by simp)
    refine ⟨rfl, Nat.ne_of_gt (regular.pos_of_mem ha), 0, ?_, rfl⟩
    rw [next_eq regular hsize ha (.inl htarget), htarget]
  | cons b rest ih =>
    have htarget : target layout (content store) a = b := linked 0 a rfl
    have ha := hcovered a (by simp)
    have hb := hcovered b (by simp)
    refine ⟨rfl, Nat.ne_of_gt (regular.pos_of_mem ha), b, ?_,
      ih linked.tail fun c hc => hcovered c (List.mem_cons_of_mem _ hc)⟩
    rw [next_eq regular hsize ha (.inr (htarget ▸ regular.inData_of_mem hb)), htarget]

theorem Intact.follows {chain : List Nat} (intact : Intact layout (content store) chain)
    (regular : layout.Regular) (hsize : layout.endAddress ≤ Store.size store) {a : Nat}
    (ha : chain[0]? = some a) : Follows layout store a chain := by
  obtain ⟨b, rest, rfl⟩ := List.exists_cons_of_ne_nil intact.ne_nil
  obtain rfl : b = a := Option.some.inj ha
  exact intact.linked.follows regular hsize fun c hc => intact.covered hc

end Chain

namespace Volume

variable {σ : Type} [Store σ] {layout : Layout} {store : σ}

/-- What is found by listing directories, from the root on, with the names on the way. -/
inductive Reachable (layout : Layout) (store : σ) : List String → Node → Prop
  | root : Reachable layout store [] (Node.root layout)
  | entry {names : List String} {parent node : Node} {nodes : Array Node} :
    Reachable layout store names parent → parent.isDirectory →
    Directory.nodes layout store parent.record.address = .ok nodes → node ∈ nodes →
    Reachable layout store (names ++ [node.record.name]) node

/-- A block that the bitmap speaks of, at a block boundary of the data region, with its bit set. -/
structure InUse (layout : Layout) (store : σ) (a : Nat) : Prop where
  aligned : a % layout.blockSize = 0
  inData : layout.dataAddress ≤ a
  covered : a < layout.dataAddress + layout.bitmapBits * layout.blockSize
  allocated : isAllocated layout store a = .ok true

/-- Chains end, their blocks are in use and in no other place of any chain, and the names of a
directory are different and valid. -/
structure Integrity (layout : Layout) (store : σ) : Prop where
  chains : ∀ {names node}, Reachable layout store names node →
    ∃ chain, Chain.Follows layout store node.record.address chain ∧ chain ≠ [] ∧ chain.Nodup ∧
      ∀ a ∈ chain, InUse layout store a
  apart : ∀ {names names' node node' chain chain'}, Reachable layout store names node →
    Reachable layout store names' node' → (names, node) ≠ (names', node') →
    Chain.Follows layout store node.record.address chain →
    Chain.Follows layout store node'.record.address chain' → chain.Disjoint chain'
  listed : ∀ {names node}, Reachable layout store names node → node.isDirectory →
    ∃ nodes, Directory.nodes layout store node.record.address = .ok nodes ∧
      (nodes.toList.map (·.record.name)).Nodup ∧
      ∀ entry ∈ nodes, validateName entry.record.name = .ok ()

variable [Faithful σ] {branches : Branches}

theorem inUse_of_marked (regular : layout.Regular) (hsize : layout.endAddress ≤ Store.size store)
    {a : Nat} (ha : a ∈ marked layout (content store)) : InUse layout store a := by
  have hcovered := marked_subset_covered ha
  refine ⟨regular.mod_of_mem hcovered, Layout.Regular.data_le_of_mem hcovered, ?_, ?_⟩
  · obtain ⟨i, hi, rfl⟩ := Layout.Regular.mem_covered.mp hcovered
    exact Nat.add_lt_add_left (Nat.mul_lt_mul_of_pos_right hi regular.blockSize_pos) _
  · rw [isAllocated_eq regular hsize hcovered, decide_eq_true ha]

namespace Mapped

variable (mapped : Mapped layout (content store) branches) (regular : layout.Regular)
  (hsize : layout.endAddress ≤ Store.size store)
include mapped regular hsize

/-- What is found by listing directories are the branches. -/
theorem branch_of_reachable {names : List String} {node : Node}
    (h : Reachable layout store names node) :
    ∃ branch, branches names = some branch ∧ branch.node = node := by
  induction h with
  | root =>
    obtain ⟨chain, hroot⟩ := mapped.root
    exact ⟨_, hroot, rfl⟩
  | entry _ hkind hnodes hmem ih =>
    obtain ⟨branch, hbranch, rfl⟩ := ih
    rw [nodes_eq regular hsize (mapped.intact hbranch) (mapped.first hbranch)] at hnodes
    obtain rfl := Except.ok.inj hnodes
    exact mapped.exists_child hbranch hkind (List.mem_toArray.mp hmem)

theorem follows {names : List String} {branch : Branch} (h : branches names = some branch) :
    Chain.Follows layout store branch.node.record.address branch.chain :=
  (mapped.intact h).follows regular hsize (mapped.first h)

/-- A volume that holds branches has integrity. -/
theorem integrity : Integrity layout store where
  chains h := by
    obtain ⟨branch, hbranch, rfl⟩ := mapped.branch_of_reachable regular hsize h
    have intact := mapped.intact hbranch
    exact ⟨branch.chain, mapped.follows regular hsize hbranch, intact.ne_nil, intact.nodup,
      fun a ha => inUse_of_marked regular hsize (intact.marked a ha)⟩
  apart h h' hne hchain hchain' := by
    obtain ⟨branch, hbranch, rfl⟩ := mapped.branch_of_reachable regular hsize h
    obtain ⟨branch', hbranch', rfl⟩ := mapped.branch_of_reachable regular hsize h'
    obtain rfl := (mapped.follows regular hsize hbranch).unique hchain
    obtain rfl := (mapped.follows regular hsize hbranch').unique hchain'
    intro a ha ha'
    obtain rfl := mapped.apart hbranch hbranch' ha ha'
    obtain rfl := Option.some.inj (hbranch.symm.trans hbranch')
    exact hne rfl
  listed h hkind := by
    obtain ⟨branch, hbranch, rfl⟩ := mapped.branch_of_reachable regular hsize h
    have orderly := mapped.orderly hbranch hkind
    refine ⟨_, nodes_eq regular hsize (mapped.intact hbranch) (mapped.first hbranch), ?_, ?_⟩
    · exact orderly.nodup
    · exact fun entry hentry => orderly.valid entry (List.mem_toArray.mp hentry)

end Mapped

section Reliable

variable {τ : Type} [Store τ] [Reliable τ]

/-- However the calls of a run on a new volume end, in the state they lead to all chains end, their
blocks are in use and are shared by no two places, and the names of each directory are different and
valid; and no call ever fails for a damaged volume or a failing store. -/
theorem integrity_of_run {blockSize : UInt32} {blank formatted : τ}
    (hformat : format blockSize blank = .ok layout formatted) (calls : List (UInt64 × Call)) :
    Integrity layout (Call.runAll layout calls formatted).2 ∧
      ∀ e, .error e ∈ (Call.runAll layout calls formatted).1 → ¬ e.Damage := by
  obtain ⟨hsize, ⟨branches, sound⟩, herrors⟩ := sound_of_format hformat calls
  exact ⟨sound.mapped.integrity sound.regular (hsize ▸ sound.fits), herrors⟩

theorem integrity_on_blank :
    ∃ volume, format 512 (blank 4195840) = .ok smallest volume ∧
      Integrity smallest (Call.runAll smallest
        [(5, .makeDirectory "/d"), (6, .createFile "/d/a"), (7, .write "/d/a" 600 [1].toByteArray)]
        volume).2 := by
  obtain ⟨volume, hformat⟩ := format_blank
  exact ⟨volume, hformat, (integrity_of_run hformat _).1⟩

end Reliable

end Volume

end ChainFs
