import ChainFs.Proofs.Volume.Owners
import ChainFs.Proofs.Volume.Space
import Mathlib.Algebra.BigOperators.Group.Finset.Basic

/-!
# The count of blocks, told from the tree

While space does not run out, the blocks in use are those that the nodes of the volume need.

* `Volume.Filled` — every block in use is on a chain, and a file has as many as its size needs;
* `Volume.Filled.step` — a call leaves it so unless it runs out of space;
* `Volume.Takes` — how many blocks a call takes;
* `Volume.blocks_counted` — after any run on a new volume the count of blocks in use is the sum of
  what directories and files need, and every further call takes exactly so many more.

The count of blocks in use is a sum over the nodes, each with the chain it has. A step changes one
chain or adds one, and the blocks that it takes are what this chain gained.
-/

namespace ChainFs.Volume

open Store Bitmap Chain Directory

variable {layout : Layout} {m m' : Content} {branches branches' : Branches} {now : UInt64}
  {call : Call} {r : Except Error Reply}

/-! ## How many blocks hold so many bytes -/

theorem blocksFor_max (layout : Layout) (n n' : Nat) :
    blocksFor layout (max n n') = max (blocksFor layout n) (blocksFor layout n') := by
  have hmono : Monotone (blocksFor layout) := fun n n' h => Nat.div_le_div_right (by omega)
  exact hmono.map_max

theorem blocksFor_zero (regular : layout.Regular) : blocksFor layout 0 = 0 :=
  Nat.le_zero.mp (blocksFor_le regular (Nat.zero_le _))

/-! ## Chains as long as they need to be -/

/-- All blocks in use are on chains, and those of files hold no block that their size does not
need, but for the first. -/
structure Filled (layout : Layout) (m : Content) (branches : Branches) : Prop where
  kept : Kept layout m branches none
  length_eq : ∀ {names branch}, branches names = some branch → ¬ branch.node.isDirectory →
    branch.chain.length = max 1 (blocksFor layout branch.node.record.size.toNat)

/-- A file that was written to has as many blocks as its new size needs. -/
theorem length_grown {branch : Branch} {offset length : Nat} {newSize : UInt32} {added : List Nat}
    (hchain : branch.chain.length = max 1 (blocksFor layout branch.node.record.size.toNat))
    (hsize : grownSize branch.node offset length = .ok newSize)
    (hlength : added.length = blocksFor layout (offset + length) - branch.chain.length) :
    (branch.chain ++ added).length = max 1 (blocksFor layout newSize.toNat) := by
  rw [List.length_append, toNat_grownSize hsize, blocksFor_max]
  omega

/-- A call that does not run out of space leaves chains as long as they need to be. -/
theorem Filled.step (filled : Filled layout m branches)
    (step : Step layout m branches now call r m' branches') (mapped : Mapped layout m branches)
    (regular : layout.Regular) (hspace : r ≠ .error .outOfSpace) : Filled layout m' branches' where
  kept := filled.kept.step_of_space step mapped hspace
  length_eq {names branch'} h' hfile' := by
    cases step with
    | idle | refused => exact filled.length_eq h' hfile'
    | @written path offset data branch newSize added m' h hfile hdata hsize hextended hlength =>
      obtain ⟨x, hx⟩ := mapped.exists_record h (mapped.ne_nil_of_file h hfile)
      rcases Branches.modify_cases h h' with ⟨-, rfl⟩ | ⟨-, hold⟩
      · rw [Function.comp_apply, Branch.chain_extend, Branch.chain_stamp, Branch.node_extend,
          Branch.stamp_of_record hx]
        exact length_grown (filled.length_eq h hfile) hsize hlength
      · exact filled.length_eq hold hfile'
    | writtenShort | createdShort => exact absurd rfl hspace
    | @created call parent name branch kind b place added m' hcall h hkind hnew hlarge hevolved =>
      by_cases hnames : names = Path.components parent ++ [name]
      · -- the new entry is empty
        rw [hnames, Branches.adopt, Function.update_self] at h'
        obtain rfl := Option.some.inj h'
        rw [UInt32.toNat_zero, blocksFor_zero regular]
        rfl
      rw [Branches.adopt, Function.update_of_ne hnames] at h'
      rcases Branches.modify_cases h h' with ⟨-, rfl⟩ | ⟨-, hold⟩
      · -- its directory is none of the files
        refine absurd ?_ hfile'
        rw [Function.comp_apply, Branch.node_extend, (Branch.Keeps.stamp ..).isDirectory_eq, hkind]
      · exact filled.length_eq hold hfile'

theorem Formatted.filled {blockSize : UInt32} {size : Nat}
    (formatted : Formatted layout blockSize size m) : Filled layout m (rootOnly layout) where
  kept := formatted.kept
  length_eq h hfile := by
    obtain ⟨-, rfl⟩ := of_rootOnly h
    exact absurd rfl hfile

/-! ## What a call takes -/

/-- How many blocks a call takes, by its answer: as many as data reaches beyond the chain of its
file; for a new entry one, and another one if its record does not fit in the rest of the last block
of its directory. -/
inductive Takes (layout : Layout) (m : Content) (owners : Finset Owner) :
    Call → Except Error Reply → Nat → Prop
  | idle {call : Call} {reply : Reply} (hidle : call.Idle) :
    Takes layout m owners call (.ok reply) 0
  | refused {call : Call} {e : Error} (hspace : e ≠ .outOfSpace) :
    Takes layout m owners call (.error e) 0
  | written {path : String} {offset : Nat} {data : ByteArray} {owner : Owner}
      (howner : owner ∈ owners) (hnames : owner.names = Path.components path)
      (hdata : 0 < data.size) :
    Takes layout m owners (.write path offset data) (.ok (.written data.size))
      (blocksFor layout (offset + data.size) - owner.blocks.length)
  | created {call : Call} {parent name : String} {kind : Kind} {node : Node} {owner : Owner}
      {last : Nat} (hcall : call.creation = some (parent, name, kind)) (howner : owner ∈ owners)
      (hnames : owner.names = Path.components parent)
      (hlast : owner.blocks.getLast? = some last) :
    Takes layout m owners call (.ok (.created node))
      (if vacantIn layout m last Cursor.firstRecord + (Record.headerSize + name.utf8ByteSize)
        ≤ layout.blockSize then 1 else 2)

section Owners

variable {owners : Finset Owner}
  (howners : ∀ owner, owner ∈ owners ↔ branches owner.names = some ⟨owner.node, owner.blocks⟩)
include howners

/-- A call that does not run out of space takes so many blocks. -/
theorem Step.takes (step : Step layout m branches now call r m' branches')
    (mapped : Mapped layout m branches) (hspace : r ≠ .error .outOfSpace) :
    ∃ n, Takes layout m owners call r n ∧
      (marked layout m').card = (marked layout m).card + n := by
  have hmem : ∀ {names branch}, branches names = some branch →
      (⟨names, branch.node, branch.chain⟩ : Owner) ∈ owners := fun h => (howners _).mpr h
  cases step with
  | idle hidle => exact ⟨0, .idle hidle, rfl⟩
  | refused => exact ⟨0, .refused fun h => hspace (by rw [h]), rfl⟩
  | written h hfile hdata hsize hextended hlength =>
    obtain ⟨touched, growth⟩ := hextended.growth
    exact ⟨_, .written (hmem h) rfl hdata, hlength ▸ growth.card_marked⟩
  | writtenShort | createdShort => exact absurd rfl hspace
  | created hcall h hkind hnew hlarge hevolved hlength =>
    obtain ⟨touched, growth⟩ := hevolved.growth
    obtain ⟨last, hlast⟩ := (mapped.intact h).exists_last
    refine ⟨_, .created hcall (hmem h) rfl hlast, ?_⟩
    rw [growth.card_marked, List.length_cons, hlength last hlast]
    split <;> rfl

/-- All blocks in use are counted once if the chains are counted. -/
theorem Kept.card_marked (kept : Kept layout m branches none) (mapped : Mapped layout m branches) :
    (marked layout m).card = ∑ owner ∈ owners, owner.blocks.length := by
  have hunion : marked layout m = owners.biUnion (·.blocks.toFinset) := by
    ext a
    rw [kept.marked_iff, Finset.mem_biUnion, Branches.holds_iff howners]
    simp
  rw [hunion, Finset.card_biUnion]
  · refine Finset.sum_congr rfl fun owner howner => List.toFinset_card_of_nodup ?_
    exact (mapped.intact ((howners owner).mp howner)).nodup
  · intro owner howner owner' howner' hne
    refine Finset.disjoint_left.mpr fun a ha ha' => hne ?_
    exact mapped.owner_eq ((howners owner).mp howner) ((howners owner').mp howner')
      (List.mem_toFinset.mp ha) (List.mem_toFinset.mp ha')

/-- What the chains of directories have and what files need are the blocks in use. -/
theorem Filled.card_marked (filled : Filled layout m branches) (mapped : Mapped layout m branches) :
    (marked layout m).card = ∑ owner ∈ owners with owner.node.isDirectory, owner.blocks.length +
      ∑ owner ∈ owners with ¬ owner.node.isDirectory,
        max 1 (blocksFor layout owner.node.record.size.toNat) := by
  rw [filled.kept.card_marked howners mapped,
    ← Finset.sum_filter_add_sum_filter_not owners (·.node.isDirectory)]
  congr 1
  refine Finset.sum_congr rfl fun owner howner => ?_
  obtain ⟨hmem, hfile⟩ := Finset.mem_filter.mp howner
  exact filled.length_eq ((howners owner).mp hmem) hfile

/-- A write that ends where the last block of its file ends takes no block. -/
theorem Takes.eq_zero {path : String} {offset n : Nat} {data : ByteArray} {owner : Owner}
    (takes : Takes layout m owners (.write path offset data) r n) (regular : layout.Regular)
    (howner : owner ∈ owners) (hnames : owner.names = Path.components path)
    (hend : offset + data.size = owner.blocks.length * layout.payloadSize) : n = 0 := by
  cases takes with
  | idle | refused => rfl
  | @written path offset data owner' howner' hnames' hdata =>
    have h := (howners owner).mp howner
    have h' := (howners owner').mp howner'
    rw [hnames', ← hnames] at h'
    obtain ⟨-, hblocks⟩ := Branch.mk.inj (Option.some.inj (h.symm.trans h'))
    rw [← hblocks]
    exact Nat.sub_eq_zero_of_le (blocksFor_le regular hend.le)
  | created hcall => cases hcall

end Owners

/-! ## Runs -/

section Reliable

variable {τ : Type} [Store τ] [Reliable τ] {blockSize : UInt32}

/-- A run that does not run out of space leaves chains as long as they need to be. -/
theorem Call.runAll_filled (calls : List (UInt64 × Call)) {store : τ}
    (sound : Sound layout blockSize (Store.size store) (content store) branches)
    (filled : Filled layout (content store) branches)
    (hspace : .error .outOfSpace ∉ (Call.runAll layout calls store).1) :
    ∃ branches', Sound layout blockSize (Store.size (Call.runAll layout calls store).2)
        (content (Call.runAll layout calls store).2) branches' ∧
      Filled layout (content (Call.runAll layout calls store).2) branches' := by
  induction calls generalizing store branches with
  | nil => exact ⟨branches, sound, filled⟩
  | cons timed rest ih =>
    obtain ⟨now, call⟩ := timed
    rw [Call.runAll_cons] at hspace ⊢
    obtain ⟨hhead, htail⟩ := not_or.mp (mt List.mem_cons.mpr hspace)
    obtain ⟨branches', step, sound'⟩ := Call.outcome_step sound now call
    exact ih sound' (filled.step step sound.mapped sound.regular (Ne.symm hhead)) htail

/-- After every run on a new volume in which space does not run out, each block in use is on one
chain of the tree. There are as many as the chains of the directories have and as the sizes of the
files need, and each further call takes exactly as many as it must. -/
theorem blocks_counted {blank formatted : τ}
    (hformat : format blockSize blank = .ok layout formatted) (calls : List (UInt64 × Call))
    (hspace : .error .outOfSpace ∉ (Call.runAll layout calls formatted).1) :
    ∃ (owners : Finset Owner) (usage : Usage),
      Census layout (Call.runAll layout calls formatted).2 owners ∧
      (∀ a, isAllocated layout (Call.runAll layout calls formatted).2 a = .ok true ↔
        ∃! owner, owner ∈ owners ∧ a ∈ owner.blocks) ∧
      Volume.usage layout (Call.runAll layout calls formatted).2 = .ok usage ∧
      usage.allocCount = ∑ owner ∈ owners with owner.node.isDirectory, owner.blocks.length +
        ∑ owner ∈ owners with ¬ owner.node.isDirectory,
          max 1 (blocksFor layout owner.node.record.size.toNat) ∧
      ∀ now call r after, (call.run layout now).outcome (Call.runAll layout calls formatted).2
          = (r, after) → r ≠ .error .outOfSpace →
        ∃ usage' n, Volume.usage layout after = .ok usage' ∧
          usage'.allocCount = usage.allocCount + n ∧
          Takes layout (content (Call.runAll layout calls formatted).2) owners call r n ∧
          ∀ path offset data owner, call = .write path offset data → owner ∈ owners →
            owner.names = Path.components path →
            offset + data.size = owner.blocks.length * layout.payloadSize → n = 0 := by
  have formatted := formatted_of_format hformat
  obtain ⟨branches, sound, filled⟩ :=
    Call.runAll_filled calls formatted.sound formatted.filled hspace
  obtain ⟨regular, fits, sealed, counted⟩ := sound.toTallied
  obtain ⟨owners, census, howners⟩ := sound.mapped.exists_census regular fits
  refine ⟨owners, _, census, fun a => ?_, sealed.usage_eq regular fits, ?_, ?_⟩
  · rw [isAllocated_iff regular fits, filled.kept.marked_iff, Branches.holds_iff howners]
    simp only [reduceCtorEq, or_false]
    constructor
    · rintro ⟨owner, howner, ha⟩
      refine ⟨owner, ⟨howner, ha⟩, fun owner' h => ?_⟩
      exact sound.mapped.owner_eq ((howners owner').mp h.1) ((howners owner).mp howner) h.2 ha
    · rintro ⟨owner, howner, -⟩
      exact ⟨owner, howner⟩
  · exact counted.trans (filled.card_marked howners sound.mapped)
  · intro now call r after houtcome hr
    obtain ⟨branches', step, sound'⟩ := Call.outcome_step sound now call
    rw [houtcome] at step sound'
    obtain ⟨n, takes, hcard⟩ := step.takes howners sound.mapped hr
    refine ⟨_, n, sound'.sealed.usage_eq regular sound'.fits, ?_, takes, ?_⟩
    · dsimp only
      rw [sound'.counted, hcard, counted]
    · rintro path offset data owner rfl howner hnames hend
      exact takes.eq_zero howners regular howner hnames hend

theorem blocks_counted_on_blank :
    ∃ volume, format 512 (blank 4195840) = .ok smallest volume ∧
      .error .outOfSpace ∉ (Call.runAll smallest
        [(5, .makeDirectory "/d"), (6, .createFile "/d/a"), (7, .write "/d/a" 600 [1].toByteArray)]
        volume).1 ∧
      ∃ (owners : Finset Owner) (usage : Usage),
        Census smallest (Call.runAll smallest
          [(5, .makeDirectory "/d"), (6, .createFile "/d/a"),
            (7, .write "/d/a" 600 [1].toByteArray)] volume).2 owners ∧
        Volume.usage smallest (Call.runAll smallest
          [(5, .makeDirectory "/d"), (6, .createFile "/d/a"),
            (7, .write "/d/a" 600 [1].toByteArray)] volume).2 = .ok usage ∧
        usage.allocCount = ∑ owner ∈ owners with owner.node.isDirectory, owner.blocks.length +
          ∑ owner ∈ owners with ¬ owner.node.isDirectory,
            max 1 (blocksFor smallest owner.node.record.size.toNat) := by
  obtain ⟨volume, hformat⟩ := format_blank
  have hspace : .error .outOfSpace ∉ (Call.runAll smallest
      [(5, .makeDirectory "/d"), (6, .createFile "/d/a"), (7, .write "/d/a" 600 [1].toByteArray)]
      volume).1 := by
    have formatted := formatted_of_format hformat
    refine Call.runAll_spends _ formatted.sound ?_
    rw [formatted.marked_eq]
    decide
  obtain ⟨owners, usage, census, -, husage, hcount, -⟩ := blocks_counted hformat _ hspace
  exact ⟨volume, hformat, hspace, owners, usage, census, husage, hcount⟩

/-- A write of no data is answered, and it takes no block. -/
theorem Sound.write_empty {store : τ}
    (sound : Sound layout blockSize (Store.size store) (content store) branches) {path : String}
    {branch : Branch} (h : branches (Path.components path) = some branch)
    (hfile : ¬ branch.node.isDirectory) (now : UInt64) (offset : Nat) :
    ∃ after, ((Call.write path offset .empty).run layout now).outcome store
        = (.ok (.written 0), after) ∧ Volume.usage layout after = Volume.usage layout store := by
  obtain ⟨regular, fits, sealed, -⟩ := sound.toTallied
  have hwrite : (write layout now path offset .empty : Edit τ Nat).Ends _ _ _ :=
    Volume.write_empty regular fits sound.mapped now h hfile rfl
  obtain ⟨hsize, hanswer, hsame⟩ := hwrite.outcome rfl rfl
  refine ⟨_, Prod.ext ?_ rfl, ?_⟩
  · rw [Call.run, Edit.outcome_map, hanswer]
    rfl
  · rw [Call.run, Edit.outcome_map, sealed.usage_eq regular fits]
    have sealed' := sealed
    rw [← hsame] at sealed'
    rw [← hsize] at fits
    rw [sealed'.usage_eq regular fits, hsame]

end Reliable

/-- A write of no data takes no block, though its offset lies beyond the chain of the file. -/
theorem empty_write_takes_none :
    ∃ volume, format 512 (blank 4195840) = .ok smallest volume ∧
      ∃ store after node blocks usage,
        (Call.runAll smallest [(1, .createFile "/f")] volume).2 = store ∧
        Reachable smallest store ["f"] node ∧
        Chain.Follows smallest store node.record.address blocks ∧
        ((Call.write "/f" 1000 .empty).run smallest 2).outcome store
          = (.ok (.written 0), after) ∧
        Volume.usage smallest store = .ok usage ∧ Volume.usage smallest after = .ok usage ∧
        blocksFor smallest (1000 + ByteArray.empty.size) - blocks.length ≠ 0 := by
  obtain ⟨volume, hformat⟩ := format_blank
  have formatted := formatted_of_format hformat
  obtain ⟨branches, step, sound⟩ := Call.outcome_step formatted.sound 1 (.createFile "/f")
  obtain ⟨b, place, rfl, -⟩ := step.of_first_creation formatted
    (show (Call.createFile "/f").creation = some ("/", "f", .file) by decide +kernel)
    (by decide +kernel) (by decide +kernel)
  have hcomponents : Path.components "/f" = ["f"] := by decide +kernel
  have hfile := Function.update_self ["f"]
    (some (⟨⟨⟨.file, b, 0, 1, "f"⟩, some place⟩, [b]⟩ : Branch)) (rootOnly smallest)
  obtain ⟨after, hwrite, husage⟩ := sound.write_empty ((congrArg _ hcomponents).trans hfile)
    Bool.false_ne_true 2 1000
  have hneeds : blocksFor smallest (1000 + ByteArray.empty.size) - [b].length = 1 := rfl
  obtain ⟨regular, fits, sealed, -⟩ := sound.toTallied
  have hbefore := sealed.usage_eq regular fits
  refine ⟨volume, hformat, _, after, _, [b], _, by rw [Call.runAll_cons]; rfl,
    sound.mapped.reachable regular fits hfile, sound.mapped.follows regular fits hfile, hwrite,
    hbefore, husage.trans hbefore, hneeds ▸ Nat.one_ne_zero⟩

end ChainFs.Volume
