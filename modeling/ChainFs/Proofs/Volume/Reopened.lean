import ChainFs.Proofs.Volume.Independence
import ChainFs.Proofs.Volume.Refinement

/-!
# Formatted, used and opened again

* `Volume.HasRoom` — which stores can be formatted with a block size: the reserved area, the
  superblock with its spare, one bitmap block and a data block for each of its bits fit;
* `Volume.layoutFor_cases`, `Volume.format_refused` — those get a layout, and all others are refused
  before anything is written;
* `Volume.remount` — leaves a volume and opens it again;
* `Volume.remount_eq` — a volume in order is found again as it was left;
* `Volume.format_and_load_agree` — a new volume is empty and takes up its store, and after any run
  of calls on it it can be left and opened again.

An open volume is its layout, so nothing is lost by leaving it, and opening is a matter of the
superblock alone: it has to describe the layout that it described before. Calls rewrite the counter
in it and nothing else.
-/

namespace ChainFs

/-! ## Room for a volume -/

/-- A superblock describes a layout if its blocks suffice for one bitmap block and those it speaks
of, and is refused otherwise. -/
theorem Layout.ofSuperblock_cases {superblock : Superblock} {blockSize : UInt32}
    (hsame : superblock.blockSize = blockSize) (hpos : 0 < blockSize.toNat) :
    if 4098 + 8 * blockSize.toNat + 1 ≤ superblock.blockCount.toNat then
      ∃ layout, Layout.ofSuperblock superblock blockSize = .ok layout
    else ∃ fault, Layout.ofSuperblock superblock blockSize = .error (.invalidImage fault) := by
  rw [Layout.ofSuperblock_eq hsame hpos]
  split
  · rename_i hroom
    rw [if_neg (by omega), if_neg (by omega)]
    exact ⟨_, rfl⟩
  · split
    · exact ⟨_, rfl⟩
    · rw [if_pos (by omega)]
      exact ⟨_, rfl⟩

namespace Volume

open Store Bitmap

/-- Whether a store of `size` bytes has room for a volume with this block size. -/
structure HasRoom (size : Nat) (blockSize : UInt32) : Prop where
  isPowerOfTwo : blockSize.toNat.isPowerOfTwo
  blockSize_ge : 512 ≤ blockSize.toNat
  count_lt : size / blockSize.toNat < 2 ^ 32
  count_ge : 4098 + 8 * blockSize.toNat + 1 ≤ size / blockSize.toNat

/-- A store with room gets a layout, any other is refused. -/
theorem layoutFor_cases (size : Nat) (blockSize : UInt32) :
    (HasRoom size blockSize ∧ ∃ layout, layoutFor size blockSize = .ok layout) ∨
      ¬ HasRoom size blockSize ∧
        ∃ fault, layoutFor size blockSize = .error (.invalidImage fault) := by
  rcases hsuperblock : newSuperblock size blockSize with e | superblock
  · refine .inr ?_
    rw [layoutFor, hsuperblock]
    unfold newSuperblock isBlockSize at hsuperblock
    split at hsuperblock
    · rename_i hsize
      obtain rfl := Except.error.inj hsuperblock
      refine ⟨fun room => ?_, _, rfl⟩
      simp [room.isPowerOfTwo, room.blockSize_ge] at hsize
    · split at hsuperblock
      · rename_i hmany
        obtain rfl := Except.error.inj hsuperblock
        exact ⟨fun room => absurd room.count_lt (Nat.not_lt.mpr hmany), _, rfl⟩
      · cases hsuperblock
  · obtain ⟨hsize, hsame, hcount⟩ := newSuperblock_fields hsuperblock
    rw [isBlockSize, Bool.and_eq_true, decide_eq_true_eq, decide_eq_true_eq] at hsize
    have hlt := superblock.blockCount.toNat_lt
    have hfor : layoutFor size blockSize = Layout.ofSuperblock superblock blockSize := by
      rw [layoutFor, hsuperblock]
      rfl
    have hcases := Layout.ofSuperblock_cases hsame (by omega)
    rw [hfor]
    rw [hcount] at hcases hlt
    split at hcases
    · rename_i hroom
      exact .inl ⟨⟨hsize.2, hsize.1, hlt, hroom⟩, hcases⟩
    · rename_i hroom
      exact .inr ⟨fun room => hroom room.count_ge, hcases⟩

variable {σ : Type} [Store σ]

/-- A store that gets no layout is refused before anything is written. -/
theorem format_refused {store : σ} {blockSize : UInt32} {e : Error}
    (h : layoutFor (Store.size store) blockSize = .error e) :
    format blockSize store = .error e store := by
  unfold layoutFor at h
  rcases hsuperblock : newSuperblock (Store.size store) blockSize with e' | superblock
  · rw [hsuperblock] at h
    obtain rfl := Except.error.inj h
    simp only [format, bind, EStateM.bind, Edit.ask, hsuperblock]
  · rw [hsuperblock] at h
    have h : Layout.ofSuperblock superblock blockSize = .error e := h
    simp only [format, bind, EStateM.bind, Edit.ofExcept, Edit.ask, hsuperblock, h]

/-! ## Leaving a volume and opening it again -/

/-- Leaves a volume and opens it again. -/
def remount (blockSize : UInt32) : Edit σ Layout := do
  Store.flush
  Edit.ask (load · blockSize)

/-- Two stores hold a volume of which all is told in the same way, now and after any more calls. -/
structure ToldAlike (layout : Layout) (store store' : σ) : Prop where
  scan : ∀ path, Volume.scan layout store' path = Volume.scan layout store path
  lookup : ∀ path, Volume.lookup layout store' path = Volume.lookup layout store path
  list : ∀ path, Volume.list layout store' path = Volume.list layout store path
  read : ∀ path offset length,
    Volume.read layout store' path offset length = Volume.read layout store path offset length
  usage : Volume.usage layout store' = Volume.usage layout store
  later : ∀ calls, (Call.runAll layout calls store').1 = (Call.runAll layout calls store).1

variable [Reliable σ] {layout : Layout} {blockSize : UInt32} {branches : Branches} {store : σ}

/-- A volume in order is found again as it was left. -/
theorem remount_eq (sound : Sound layout blockSize (Store.size store) (content store) branches) :
    ∃ again, remount blockSize store = .ok layout again ∧ ToldAlike layout store again := by
  have hflush := Faithful.flush_ends store
  rcases hr : (Store.flush : Edit σ Unit) store with ⟨⟨⟩, again⟩ | ⟨e, again⟩
  · rw [hr] at hflush
    obtain ⟨hsize, hcontent⟩ := hflush
    obtain ⟨⟨regular, hfits, sealed, -⟩, mapped⟩ := id sound
    have sealed' := sealed
    have hfits' := hfits
    have hagree := Agree.refl layout (content store)
    rw [← hcontent] at sealed'
    rw [← hsize] at hfits'
    have hload := sealed'.load_eq regular hfits'
    nth_rewrite 2 [← hcontent] at hagree
    have hquestion := question_eq regular hfits hfits' mapped hagree
    refine ⟨again, ?_, ?_⟩
    · simp only [remount, bind, EStateM.bind, hr, Edit.ask, hload]
    · exact {
        scan := fun path => (hquestion path).1
        lookup := fun path => (hquestion path).2.1
        list := fun path => (hquestion path).2.2.1
        read := fun path => (hquestion path).2.2.2
        usage := by rw [sealed.usage_eq regular hfits, sealed'.usage_eq regular hfits', hcontent]
        later := fun calls => Call.runAll_eq calls sound hsize hagree }
  · rw [hr] at hflush
    exact absurd hflush.2.2 (Reliable.not_fault e)

/-! ## A new volume -/

/-- An empty volume that takes up its store: of the blocks only the first one of the root is in use,
and the superblock counts it. -/
structure Pristine (layout : Layout) (blockSize : UInt32) (store : σ) : Prop where
  allocated : ∀ a ∈ layout.covered,
    isAllocated layout store a = .ok (decide (a = layout.dataAddress))
  population : population layout (content store) = 1
  usage : usage layout store = .ok ⟨blockSize.toNat, Store.size store / blockSize.toNat, 1⟩
  root : list layout store "/" = .ok #[]

/-- The root of a new volume is empty. -/
theorem Formatted.list_root
    (formatted : Formatted layout blockSize (Store.size store) (content store)) :
    list layout store "/" = .ok #[] := by
  have hroot : rootOnly layout (Path.components "/")
      = some ⟨Node.root layout, [layout.dataAddress]⟩ := rfl
  have hentries : Directory.entries layout (content store) [layout.dataAddress] = [] :=
    formatted.mapped.entries_eq_nil hroot rfl fun name => if_neg (by simp)
  rw [list_eq formatted.regular formatted.fits formatted.mapped hroot, hentries]
  exact if_pos rfl

theorem Formatted.pristine
    (formatted : Formatted layout blockSize (Store.size store) (content store))
    (hlayout : layoutFor (Store.size store) blockSize = .ok layout) :
    Pristine layout blockSize store where
  allocated a ha := by
    rw [isAllocated_eq formatted.regular formatted.fits ha, formatted.marked_eq]
    exact congrArg Except.ok (decide_eq_decide.mpr Finset.mem_singleton)
  population := by
    rw [population_eq formatted.regular, formatted.marked_eq, Finset.card_singleton]
  usage := by
    obtain ⟨superblock, hsuperblock, hdescribed, -⟩ := of_layoutFor hlayout
    obtain ⟨-, hblockSize, hcount, -⟩ := ofSuperblock_fields hdescribed
    obtain ⟨-, -, hfilled⟩ := newSuperblock_fields hsuperblock
    rw [formatted.sealed.usage_eq formatted.regular formatted.fits, formatted.counter_eq,
      hblockSize, hcount, hfilled]
  root := formatted.list_root

/-- Formatting and opening agree on what a volume is. Exactly the stores with room can be formatted,
and all others are refused unchanged. What was formatted is an empty volume, and after any calls on
it, whether or not they succeed, it can be left and is found again with the same layout and as it
was left. -/
theorem format_and_load_agree (store : σ) (blockSize : UInt32) :
    (HasRoom (Store.size store) blockSize →
      ∃ layout formatted, format blockSize store = .ok layout formatted ∧
        Store.size formatted = Store.size store ∧ Pristine layout blockSize formatted ∧
        ∀ calls, ∃ again, remount blockSize (Call.runAll layout calls formatted).2
            = .ok layout again ∧
          ToldAlike layout (Call.runAll layout calls formatted).2 again) ∧
      (¬ HasRoom (Store.size store) blockSize →
        ∃ fault, format blockSize store = .error (.invalidImage fault) store) := by
  rcases layoutFor_cases (Store.size store) blockSize with ⟨hroom, layout, hlayout⟩ | ⟨hroom, hno⟩
  · refine ⟨fun _ => ?_, fun hno => absurd hroom hno⟩
    have hformat := format_eq hlayout
    generalize ((format blockSize).outcome store).2 = formatted at hformat
    obtain ⟨hsize, hformatted⟩ := formatted_of_ok hformat
    rw [← hsize] at hlayout hformatted
    refine ⟨layout, formatted, hformat, hsize, hformatted.pristine hlayout, fun calls => ?_⟩
    obtain ⟨hsize', ⟨branches, sound⟩, -⟩ := sound_of_format hformat calls
    rw [← hsize'] at sound
    exact remount_eq sound
  · obtain ⟨fault, hfault⟩ := hno
    exact ⟨fun h => absurd h hroom, fun _ => ⟨fault, format_refused hfault⟩⟩

/-- One block less than in the smallest volume is too few. -/
theorem format_and_load_agree_on_blank :
    (∃ formatted, format 512 (blank 4195840) = .ok smallest formatted ∧
      Pristine smallest 512 formatted ∧
      ∃ again, remount 512 (Call.runAll smallest
          [(5, .makeDirectory "/d"), (6, .createFile "/x/a"), (7, .createFile "/d/a")] formatted).2
        = .ok smallest again ∧
        ToldAlike smallest (Call.runAll smallest
          [(5, .makeDirectory "/d"), (6, .createFile "/x/a"), (7, .createFile "/d/a")] formatted).2
          again) ∧
      ∃ fault, format 512 (blank 4195839) = .error (.invalidImage fault) (blank 4195839) := by
  have hroom : HasRoom (Store.size (blank 4195840)) 512 := by
    rw [size_blank]
    exact ⟨by decide, by decide, by decide, by decide⟩
  have hnone : ¬ HasRoom (Store.size (blank 4195839)) 512 := fun room => by
    have hcount := room.count_ge
    rw [size_blank] at hcount
    exact absurd hcount (by decide)
  obtain ⟨layout, formatted, hformat, -, hpristine, hagain⟩ :=
    (format_and_load_agree (blank 4195840) 512).1 hroom
  obtain ⟨volume, hblank⟩ := format_blank
  rw [hformat] at hblank
  cases hblank
  exact ⟨⟨formatted, hformat, hpristine, hagain _⟩,
    (format_and_load_agree (blank 4195839) 512).2 hnone⟩

end Volume

end ChainFs
