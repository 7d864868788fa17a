import ChainFs.Proofs.Volume.Integrity
import ChainFs.Proofs.Volume.Steps
import Mathlib.Data.Set.Finite.Basic

/-!
# The owners of blocks

Which chain a block in use belongs to, and which blocks belong to none.

* `Volume.Owner`, `Volume.Census` — the nodes of a volume, each with the blocks of its chain;
* `Volume.Kept` — every block in use is on a chain, but for one that may be lost;
* `Volume.Kept.step`, `Volume.Call.runAll_kept` — calls leave it so. They lose a block only if space
  runs out for an entry that has got its own block already, and then no block is free any more.

A census is finite because blocks have one owner: a node has a first block of its own, so there are
no more nodes than blocks in use. That is what makes it possible to count by summing up over nodes.
-/

namespace ChainFs.Volume

open Store Bitmap Chain Directory

/-- A node of a volume, with the names that lead to it and the blocks of its chain. -/
structure Owner where
  names : List String
  node : Node
  blocks : List Nat
  deriving DecidableEq

/-- All nodes that are found from the root on, each with the blocks that its links lead through. -/
def Census {σ : Type} [Store σ] (layout : Layout) (store : σ) (owners : Finset Owner) : Prop :=
  ∀ owner, owner ∈ owners ↔ Reachable layout store owner.names owner.node ∧
    Chain.Follows layout store owner.node.record.address owner.blocks

/-- A block has one owner only. -/
theorem Mapped.owner_eq {layout : Layout} {m : Content} {branches : Branches}
    (mapped : Mapped layout m branches) {owner owner' : Owner} {a : Nat}
    (h : branches owner.names = some ⟨owner.node, owner.blocks⟩)
    (h' : branches owner'.names = some ⟨owner'.node, owner'.blocks⟩) (ha : a ∈ owner.blocks)
    (ha' : a ∈ owner'.blocks) : owner = owner' := by
  obtain ⟨names, node, blocks⟩ := owner
  obtain ⟨names', node', blocks'⟩ := owner'
  obtain rfl : names = names' := mapped.apart h h' ha ha'
  obtain ⟨rfl, rfl⟩ := Branch.mk.inj (Option.some.inj (h.symm.trans h'))
  rfl

section Faithful

variable {σ : Type} [Store σ] [Faithful σ] {layout : Layout} {store : σ} {branches : Branches}
  {names : List String} {branch : Branch}
variable (mapped : Mapped layout (content store) branches) (regular : layout.Regular)
  (hsize : layout.endAddress ≤ Store.size store)
include mapped regular hsize

/-- Every branch is found by listing directories. -/
theorem Mapped.reachable (h : branches names = some branch) :
    Reachable layout store names branch.node := by
  induction names using List.reverseRecOn generalizing branch with
  | nil =>
    rw [mapped.node_root h]
    exact .root
  | append_singleton front name ih =>
    obtain ⟨parent, hparent, hkind, hmem, rfl⟩ := mapped.mem_parent h
    exact .entry (ih hparent) hkind
      (nodes_eq regular hsize (mapped.intact hparent) (mapped.first hparent))
      (List.mem_toArray.mpr hmem)

/-- The owners are the branches. -/
theorem Mapped.owner_iff (owner : Owner) :
    (Reachable layout store owner.names owner.node ∧
      Chain.Follows layout store owner.node.record.address owner.blocks) ↔
      branches owner.names = some ⟨owner.node, owner.blocks⟩ := by
  constructor
  · rintro ⟨hreachable, hfollows⟩
    obtain ⟨⟨node, chain⟩, hbranch, rfl⟩ := mapped.branch_of_reachable regular hsize hreachable
    obtain rfl := (mapped.follows regular hsize hbranch).unique hfollows
    exact hbranch
  · exact fun h => ⟨mapped.reachable regular hsize h, mapped.follows regular hsize h⟩

/-- There are only so many owners as there are blocks in use, since each has a first one. -/
theorem Mapped.exists_census : ∃ owners, Census layout store owners ∧
    ∀ owner, owner ∈ owners ↔ branches owner.names = some ⟨owner.node, owner.blocks⟩ := by
  have hfinite : {owner : Owner |
      branches owner.names = some ⟨owner.node, owner.blocks⟩}.Finite := by
    have hfirst : ∀ owner : Owner, branches owner.names = some ⟨owner.node, owner.blocks⟩ →
        owner.node.record.address ∈ owner.blocks :=
      fun owner h => List.mem_of_getElem? (mapped.first h)
    refine Set.Finite.of_injOn (f := fun owner : Owner => owner.node.record.address)
      (t := ↑(marked layout (content store))) (fun owner h => ?_) (fun owner h owner' h' heq => ?_)
      (Finset.finite_toSet _)
    · exact (mapped.intact h).marked _ (hfirst owner h)
    · refine mapped.owner_eq h h' (hfirst owner h) ?_
      rw [show owner.node.record.address = owner'.node.record.address from heq]
      exact hfirst owner' h'
  refine ⟨hfinite.toFinset, fun owner => ?_, fun owner => hfinite.mem_toFinset⟩
  rw [hfinite.mem_toFinset, mapped.owner_iff regular hsize]
  rfl

end Faithful

variable {layout : Layout} {m m' : Content} {branches branches' : Branches} {now : UInt64}
  {call : Call} {r : Except Error Reply} {names : List String} {branch : Branch} {a : Nat}

/-! ## Blocks on chains -/

/-- Whether a block is on the chain of a branch. -/
def Branches.Holds (branches : Branches) (a : Nat) : Prop :=
  ∃ names branch, branches names = some branch ∧ a ∈ branch.chain

/-- The blocks on chains are those of the owners. -/
theorem Branches.holds_iff {owners : Finset Owner}
    (howners : ∀ owner, owner ∈ owners ↔ branches owner.names = some ⟨owner.node, owner.blocks⟩) :
    branches.Holds a ↔ ∃ owner ∈ owners, a ∈ owner.blocks := by
  constructor
  · rintro ⟨names, branch, hbranch, ha⟩
    exact ⟨⟨names, branch.node, branch.chain⟩, (howners _).mpr hbranch, ha⟩
  · rintro ⟨owner, howner, ha⟩
    exact ⟨_, _, (howners owner).mp howner, ha⟩

theorem Branches.holds_grow (h : branches names = some branch) (size : UInt32) (mtime : UInt64)
    (added : List Nat) :
    (branches.grow names size mtime added).Holds a ↔ branches.Holds a ∨ a ∈ added := by
  have hchain : ((Branch.extend added ∘ Branch.stamp size mtime) branch).chain
      = branch.chain ++ added := by
    rw [Function.comp_apply, Branch.chain_extend, Branch.chain_stamp]
  constructor
  · rintro ⟨names', branch', h', ha⟩
    rcases Branches.modify_cases h h' with ⟨rfl, rfl⟩ | ⟨-, hold⟩
    · rw [hchain] at ha
      exact (List.mem_append.mp ha).imp (fun ha => ⟨_, branch, h, ha⟩) id
    · exact .inl ⟨names', branch', hold, ha⟩
  · rintro (⟨names', branch', h', ha⟩ | ha)
    · by_cases hnames : names' = names
      · subst hnames
        obtain rfl := Option.some.inj (h.symm.trans h')
        exact ⟨_, _, Branches.modify_self h, by rw [hchain]; exact List.mem_append_left _ ha⟩
      · exact ⟨names', branch', (Branches.modify_of_ne hnames).trans h', ha⟩
    · exact ⟨_, _, Branches.modify_self h, by rw [hchain]; exact List.mem_append_right _ ha⟩

theorem Branches.holds_update (h : branches names = none) (branch : Branch) :
    Branches.Holds (Function.update branches names (some branch)) a
      ↔ branches.Holds a ∨ a ∈ branch.chain := by
  constructor
  · rintro ⟨names', branch', h', ha⟩
    by_cases hnames : names' = names
    · subst hnames
      rw [Function.update_self] at h'
      obtain rfl := Option.some.inj h'
      exact .inr ha
    · rw [Function.update_of_ne hnames] at h'
      exact .inl ⟨names', branch', h', ha⟩
  · rintro (⟨names', branch', h', ha⟩ | ha)
    · refine ⟨names', branch', ?_, ha⟩
      rw [Function.update_of_ne, h']
      rintro rfl
      rw [h] at h'
      cases h'
    · exact ⟨names, branch, Function.update_self .., ha⟩

/-- A block on a chain is in use. -/
theorem Mapped.marked_of_holds (mapped : Mapped layout m branches) (h : branches.Holds a) :
    a ∈ marked layout m := by
  obtain ⟨names, branch, hbranch, ha⟩ := h
  exact (mapped.intact hbranch).marked a ha

/-- Whether space ran out for an entry that a call was to create. -/
def Call.RunsShort (call : Call) (answer : Except Error Reply) : Prop :=
  call.creation ≠ none ∧ answer = .error .outOfSpace

/-- What a step does to the blocks: all that it takes come on chains, unless space runs out for a
new entry. Then none does, and it has taken the last free block or nothing. -/
theorem Step.blocks (step : Step layout m branches now call r m' branches')
    (mapped : Mapped layout m branches) :
    ∃ touched taken linked, Growth layout m touched taken taken.length m' ∧
      (∀ a, branches'.Holds a ↔ branches.Holds a ∨ a ∈ linked) ∧
      (¬ call.RunsShort r ∧ linked = taken ∨
        call.RunsShort r ∧ linked = [] ∧ taken.length ≤ 1 ∧ marked layout m' = layout.covered) := by
  cases step with
  | idle =>
    exact ⟨[], [], [], .refl layout m, by simp, .inl ⟨fun h => (by cases h.2), rfl⟩⟩
  | refused hrefusal =>
    refine ⟨[], [], [], .refl layout m, by simp, .inl ⟨?_, rfl⟩⟩
    rintro ⟨-, hr⟩
    cases hr
    exact hrefusal
  | written h hfile hdata hsize hextended =>
    obtain ⟨touched, growth⟩ := hextended.growth
    exact ⟨touched, _, _, growth, fun a => Branches.holds_grow h .., .inl ⟨fun h => h.1 rfl, rfl⟩⟩
  | writtenShort h hfile hsize hextended =>
    obtain ⟨touched, growth⟩ := hextended.growth
    exact ⟨touched, _, _, growth, fun a => Branches.holds_grow h .., .inl ⟨fun h => h.1 rfl, rfl⟩⟩
  | @created call parent name branch kind b place added m' hcall h hkind hnew hlarge hevolved =>
    obtain ⟨touched, growth⟩ := hevolved.growth
    refine ⟨touched, b :: added, b :: added, growth, fun a => ?_,
      .inl ⟨fun h => (by cases h.2), rfl⟩⟩
    rw [Branches.holds_update, Branches.holds_grow h, List.mem_singleton, List.mem_cons]
    · tauto
    · exact Branches.modify_none (mapped.none_of_new h hnew)
  | createdShort hcall h hkind hlarge hextended hfull hone =>
    obtain ⟨touched, growth⟩ := hextended.growth
    refine ⟨touched, _, [], growth, fun a => Branches.holds_grow h ..,
      .inr ⟨⟨?_, rfl⟩, rfl, hone, hfull⟩⟩
    rw [hcall]
    exact Option.some_ne_none _

/-! ## Blocks that are lost -/

/-- The blocks in use are those on chains and the one that is lost, if one is. It was the last free
block. -/
structure Kept (layout : Layout) (m : Content) (branches : Branches) (lost : Option Nat) :
    Prop where
  marked_iff : ∀ a, a ∈ marked layout m ↔ branches.Holds a ∨ lost = some a
  apart : ∀ a, lost = some a → ¬ branches.Holds a
  full : lost.isSome → marked layout m = layout.covered

namespace Kept

variable {lost : Option Nat} {touched taken : List Nat} {counted : Nat}

/-- Where all the blocks that are taken come on chains no more are lost. -/
theorem of_linked (kept : Kept layout m branches lost)
    (growth : Growth layout m touched taken counted m')
    (hholds : ∀ a, branches'.Holds a ↔ branches.Holds a ∨ a ∈ taken) :
    Kept layout m' branches' lost where
  marked_iff a := by
    rw [growth.marked_eq, Finset.mem_union, List.mem_toFinset, kept.marked_iff, hholds]
    tauto
  apart a ha hheld := by
    rcases (hholds a).mp hheld with hheld | htaken
    · exact kept.apart a ha hheld
    · exact growth.fresh a htaken ((kept.marked_iff a).mpr (.inr ha))
  full h := growth.marked_full (kept.full h)

/-- The last free block is lost if it is taken and comes on no chain. -/
theorem lose {b : Nat} (kept : Kept layout m branches none) (mapped : Mapped layout m branches)
    (growth : Growth layout m touched [b] counted m')
    (hholds : ∀ a, branches'.Holds a ↔ branches.Holds a)
    (hfull : marked layout m' = layout.covered) : Kept layout m' branches' (some b) where
  marked_iff a := by
    rw [growth.marked_eq, Finset.mem_union, List.mem_toFinset, kept.marked_iff, hholds]
    simp [eq_comm]
  apart a ha hheld := by
    obtain rfl := Option.some.inj ha
    exact growth.fresh b (List.mem_singleton_self b) (mapped.marked_of_holds ((hholds b).mp hheld))
  full _ := hfull

/-- Unless space runs out the blocks are kept as before. -/
theorem step_of_space (kept : Kept layout m branches lost)
    (step : Step layout m branches now call r m' branches') (mapped : Mapped layout m branches)
    (hspace : r ≠ .error .outOfSpace) : Kept layout m' branches' lost := by
  obtain ⟨touched, taken, linked, growth, hholds, ⟨-, rfl⟩ | ⟨hshort, -⟩⟩ := step.blocks mapped
  · exact kept.of_linked growth hholds
  · exact absurd hshort.2 hspace

/-- After a step the blocks are kept as before, or one more is lost: the last free one, which was
taken for an entry that was not created. -/
theorem step (kept : Kept layout m branches lost)
    (step : Step layout m branches now call r m' branches') (mapped : Mapped layout m branches) :
    ∃ lost', Kept layout m' branches' lost' ∧ ∀ a, lost' = some a ↔
      lost = some a ∨ call.RunsShort r ∧ a ∈ layout.covered \ marked layout m := by
  obtain ⟨touched, taken, linked, growth, hholds, ⟨hshort, rfl⟩ | ⟨hshort, rfl, hone, hfull⟩⟩ :=
    step.blocks mapped
  · exact ⟨lost, kept.of_linked growth hholds, by tauto⟩
  simp only [List.not_mem_nil, or_false] at hholds
  have hfree : layout.covered \ marked layout m = taken.toFinset := by
    rw [← hfull, growth.marked_eq, Finset.union_sdiff_left, Finset.sdiff_eq_self_iff_disjoint]
    exact Finset.disjoint_left.mpr fun a ha => growth.fresh a (List.mem_toFinset.mp ha)
  match taken, hone with
  | [], _ => exact ⟨lost, kept.of_linked growth (by simpa using hholds), by simp [hfree]⟩
  | [b], _ =>
    have hspace : marked layout m ≠ layout.covered := fun h =>
      growth.fresh b (List.mem_singleton_self b)
        (h ▸ growth.taken_covered b (List.mem_singleton_self b))
    obtain rfl : lost = none := Option.not_isSome_iff_eq_none.mp fun h => hspace (kept.full h)
    exact ⟨some b, kept.lose mapped growth hholds hfull, by simp [hshort, hfree, eq_comm]⟩

end Kept

/-! ## Runs -/

/-- Whether in a run there comes an entry that finds the block `a` free for itself and none for its
directory to go on with. -/
def Call.Strands {σ : Type} [Store σ] (layout : Layout) : List (UInt64 × Call) → σ → Nat → Prop
  | [], _, _ => False
  | (now, call) :: rest, store, a =>
    (call.RunsShort ((call.run layout now).outcome store).1 ∧ nextFree layout store = .ok a) ∨
      Strands layout rest ((call.run layout now).outcome store).2 a

/-- If no more than one block is free, it is the next one. -/
theorem nextFree_eq_iff {σ : Type} [Store σ] [Faithful σ] {store : σ} (regular : layout.Regular)
    (hsize : layout.endAddress ≤ Store.size store)
    (hone : ∀ b ∈ layout.covered \ marked layout (content store),
      a ∈ layout.covered \ marked layout (content store) → b = a) :
    nextFree layout store = .ok a ↔ a ∈ layout.covered \ marked layout (content store) := by
  rcases nextFree_spec regular hsize with ⟨b, hcovered, hfree, -, hfound⟩ | ⟨hfull, hnone⟩
  · have hb := Finset.mem_sdiff.mpr ⟨hcovered, hfree⟩
    constructor
    · intro h
      obtain rfl := Except.ok.inj (hfound.symm.trans h)
      exact hb
    · intro h
      obtain rfl := hone b hb h
      exact hfound
  · simp [hnone, hfull]

variable {τ : Type} [Store τ] [Reliable τ] {blockSize : UInt32} {store : τ}

/-- After a run the blocks are kept as before it, or one is lost because the run strands it. -/
theorem Call.runAll_kept (calls : List (UInt64 × Call)) {lost : Option Nat}
    (sound : Sound layout blockSize (Store.size store) (content store) branches)
    (kept : Kept layout (content store) branches lost) :
    ∃ branches' lost', Sound layout blockSize (Store.size (Call.runAll layout calls store).2)
        (content (Call.runAll layout calls store).2) branches' ∧
      Kept layout (content (Call.runAll layout calls store).2) branches' lost' ∧
      ∀ a, lost' = some a ↔ lost = some a ∨ Call.Strands layout calls store a := by
  induction calls generalizing store branches lost with
  | nil => exact ⟨branches, lost, sound, kept, fun a => by rw [Call.Strands, or_false]⟩
  | cons timed rest ih =>
    obtain ⟨now, call⟩ := timed
    obtain ⟨branches₁, step, sound₁⟩ := Call.outcome_step sound now call
    obtain ⟨lost₁, kept₁, hlost₁⟩ := kept.step step sound.mapped
    obtain ⟨branches', lost', sound', kept', hlost'⟩ := ih sound₁ kept₁
    rw [Call.runAll_cons]
    refine ⟨branches', lost', sound', kept', fun a => ?_⟩
    rw [hlost', hlost₁, Call.Strands, or_assoc]
    refine or_congr_right (or_congr_left (and_congr_right fun hshort => ?_))
    refine (nextFree_eq_iff sound.regular sound.fits fun b hb ha => ?_).symm
    exact Option.some.inj
      (((hlost₁ b).mpr (.inr ⟨hshort, hb⟩)).symm.trans ((hlost₁ a).mpr (.inr ⟨hshort, ha⟩)))

/-- On a new volume the only block in use is that of the root. -/
theorem Formatted.kept {size : Nat} (formatted : Formatted layout blockSize size m) :
    Kept layout m (rootOnly layout) none where
  marked_iff a := by
    rw [formatted.marked_eq, Finset.mem_singleton]
    constructor
    · rintro rfl
      exact .inl ⟨[], _, rfl, List.mem_singleton_self _⟩
    · rintro (⟨names, branch, h, ha⟩ | ha)
      · obtain ⟨rfl, rfl⟩ := of_rootOnly h
        exact List.mem_singleton.mp ha
      · cases ha
  apart _ h := by cases h
  full h := by cases h

end ChainFs.Volume
