import ChainFs.Proofs.Volume.Owners

/-!
# Blocks that are lost

What becomes of the blocks of a volume if calls fail for lack of space.

A new entry takes its own block first and then looks for a place for its record. If the directory
needs a new block and there is none, the entry's block has been taken in vain, and nothing gives it
back. It was the last free one, so this can happen once only, and the bound is reached: the run at
the end of this file fills a volume up to its last block and loses that one.

* `Volume.blocks_kept_or_stranded` — after any run on a new volume the blocks in use are those of
  the chains, and at most one more: the last free block, which an entry got whose directory could
  not go on;
* `Volume.create_strands_block` — a run of three calls that loses a block.
-/

namespace ChainFs.Volume

open Store Bitmap Chain Directory

/-! ## A run that loses a block -/

/-- A name of 255 times a letter. -/
def longName (letter : Char) : String :=
  String.ofList (List.replicate Record.maxNameSize letter)

theorem utf8ByteSize_longName (letter : Char) (h : letter.utf8Size = 1) :
    (longName letter).utf8ByteSize = 255 := by
  have hsize : ∀ n, (String.ofList (List.replicate n letter)).utf8ByteSize = n := by
    intro n
    induction n with
    | zero => simp
    | succ n ih =>
      rw [List.replicate_succ, ← List.singleton_append, String.ofList_append,
        String.utf8ByteSize_append, ih, Nat.add_comm]
      simp [h]
  exact hsize 255

theorem validateName_longName (letter : Char) (h : letter.utf8Size = 1) (hslash : letter ≠ '/')
    (hzero : letter ≠ '\x00') : validateName (longName letter) = .ok () := by
  have hsize := utf8ByteSize_longName letter h
  have hne : ∀ name : String, name.utf8ByteSize ≠ 255 → longName letter ≠ name := by
    rintro name hname rfl
    exact hname hsize
  have hmem : ∀ c, c ∈ (longName letter).toList → c = letter := by
    intro c hc
    rw [longName, String.toList_ofList] at hc
    exact List.eq_of_mem_replicate hc
  rw [validateName, if_neg, if_neg]
  · rw [hsize]
    decide
  · rintro (heq | heq | heq | hc | hc)
    · exact hne _ (by decide) heq
    · exact hne _ (by decide) heq
    · exact hne _ (by decide) heq
    · exact hslash (hmem _ hc).symm
    · exact hzero (hmem _ hc).symm

/-- A file with a long name is created in the root and written so far that one block is left, and
then an entry with another long name is to be created, for which the block of the root has no
room. -/
def strandingCalls : List (UInt64 × Call) :=
  [(1, .create "/" (longName 'a') .file),
    (2, .write (Path.absolute [longName 'a']) 2079244 [1].toByteArray),
    (3, .create "/" (longName 'b') .file)]

section Contents

variable {m m' : Content} {branches branches' : Branches} {now : UInt64} {r : Except Error Reply}
  {file : Branch}

/-- The root has one block, and in it one record, of a file with a long name. -/
structure LongNamed (m : Content) (branches : Branches) (file : Branch) : Prop where
  root : branches [] = some ⟨Node.root smallest, [smallest.dataAddress]⟩
  names : entryNames smallest m [smallest.dataAddress] = [longName 'a']
  file : branches [longName 'a'] = some file

/-- The first long name gets a file of one block, next to that of the root. -/
theorem LongNamed.first {blockSize : UInt32} {size : Nat}
    (formatted : Formatted smallest blockSize size m)
    (step : Step smallest m (rootOnly smallest) now (.create "/" (longName 'a') .file) r m'
      branches') :
    ∃ b place, LongNamed m' branches' ⟨⟨⟨.file, b, 0, now, longName 'a'⟩, some place⟩, [b]⟩ ∧
      (marked smallest m').card = 2 := by
  obtain ⟨b, place, rfl, hevolved⟩ := step.of_first_creation formatted rfl (by decide +kernel)
    (validateName_longName 'a' rfl (by decide) (by decide))
  obtain ⟨touched, growth⟩ := hevolved.growth
  have hcard := growth.card_marked
  rw [formatted.marked_eq, Finset.card_singleton] at hcard
  have hroot : ([] : List String) ≠ [longName 'a'] := by simp
  have hlisting := hevolved.listing rfl (Function.update_of_ne hroot _ (rootOnly smallest)) rfl
  rw [entryNames, entryNames, formatted.empty.1] at hlisting
  exact ⟨b, place, ⟨Function.update_of_ne hroot _ _, hlisting, Function.update_self ..⟩, hcard⟩

/-- Writing a byte into the last but two of the blocks that a chain could have takes all free blocks
but one. -/
theorem LongNamed.write (named : LongNamed m branches file) (regular : smallest.Regular)
    (hfile : ¬ file.node.isDirectory)
    (hsize : file.node.record.size = 0) (hchain : file.chain.length = 1)
    (hcard : (marked smallest m).card = 2)
    (step : Step smallest m branches now
      (.write (Path.absolute [longName 'a']) 2079244 [1].toByteArray) r m' branches') :
    ∃ file', LongNamed m' branches' file' ∧ (marked smallest m').card = 4095 := by
  have hvalid := validateName_longName 'a' rfl (by decide) (by decide)
  have hcomponents : Path.components (Path.absolute [longName 'a']) = [longName 'a'] :=
    Path.components_absolute (by simpa using Path.plain_of_validateName hvalid)
  obtain ⟨added, rfl, hextended, hends⟩ :=
    step.of_write ((congrArg branches hcomponents).trans named.file) hfile (by decide)
      (grownSize_of_empty hsize (by decide))
  obtain ⟨touched, growth⟩ := hextended.growth
  have hcard' := growth.card_marked
  have hroot : ([] : List String) ≠ [longName 'a'] := by simp
  rw [hcomponents] at hextended ⊢
  refine ⟨_, ⟨(Branches.modify_of_ne hroot).trans named.root, ?_,
    Branches.modify_self named.file⟩, ?_⟩
  · have halike := (hextended.other hroot named.root).2
    rw [Alike, if_pos (show (Node.root smallest).isDirectory from rfl)] at halike
    exact halike.trans named.names
  · have hblocks : blocksFor smallest (2079244 + ([1].toByteArray).size) = 4094 := by decide
    rw [hblocks, hchain] at hends
    rcases hends with ⟨-, hlength⟩ | ⟨-, hfull, hshort⟩
    · omega
    · -- all blocks together would have been enough
      rw [hfull, regular.card_covered, show smallest.bitmapBits = 4096 by decide] at hcard'
      omega

/-- The block of the root has no room for another long name, and there is only one free block. -/
theorem LongNamed.create (named : LongNamed m branches file) (regular : smallest.Regular)
    (hcard : (marked smallest m).card = 4095)
    (step : Step smallest m branches now (.create "/" (longName 'b') .file) r m' branches') :
    r = .error .outOfSpace := by
  have hsize := utf8ByteSize_longName 'a' rfl
  have hsize' := utf8ByteSize_longName 'b' rfl
  have hroot : Path.components "/" = [] := by decide +kernel
  have hcheck : checkNew (Node.root smallest) (longName 'b') = .ok () := by
    rw [checkNew, validateName_longName 'b' rfl (by decide) (by decide)]
    rfl
  have hnew : longName 'b' ∉ entryNames smallest m [smallest.dataAddress] := by
    rw [named.names, List.mem_singleton, longName, longName, String.ofList_inj]
    exact fun h => absurd (List.cons.inj h).1 (by decide)
  have hextent : extent (entries smallest m [smallest.dataAddress]) = 273 := by
    rw [extent_eq, ← entryNames, named.names, List.map_singleton, hsize]
    rfl
  have hlarge : grownExtent smallest m ⟨Node.root smallest, [smallest.dataAddress]⟩ (longName 'b')
      < 2 ^ 32 := by
    rw [grownExtent, hextent, hsize']
    decide
  rcases step.of_creation rfl ((congrArg branches hroot).trans named.root) hcheck hnew hlarge with
    ⟨b, place, added, -, -, hevolved, hlength⟩ | ⟨taken, hr, -⟩
  · -- two blocks would have been needed
    have hvacant := extent_le_vacantIn smallest m smallest.dataAddress Cursor.firstRecord
    have hadded : added.length = 1 := by
      rw [entries, List.flatMap_singleton] at hextent
      rw [hlength smallest.dataAddress rfl, if_neg]
      have hfirst : Cursor.firstRecord = 4 := rfl
      have hheader : Record.headerSize = 18 := rfl
      have hblock : smallest.blockSize = 512 := rfl
      omega
    obtain ⟨touched, growth⟩ := hevolved.growth
    have hcard' := growth.card_marked
    have hle := card_marked_le (m := m') regular
    rw [show smallest.bitmapBits = 4096 by decide] at hle
    rw [List.length_cons, hadded] at hcard'
    omega
  · exact hr

end Contents

/-- The last of the calls is short of a block, though one is free before it. -/
theorem strands_strandingCalls {volume : Memory}
    (hformat : format 512 (blank 4195840) = .ok smallest volume) :
    ∃ a, Call.Strands smallest strandingCalls volume a := by
  have formatted := formatted_of_format hformat
  have regular := formatted.regular
  obtain ⟨branches₁, step₁, sound₁⟩ :=
    Call.outcome_step formatted.sound 1 (.create "/" (longName 'a') .file)
  obtain ⟨b, place, named, hcard⟩ := LongNamed.first formatted step₁
  obtain ⟨branches₂, step₂, sound₂⟩ := Call.outcome_step sound₁ 2
    (.write (Path.absolute [longName 'a']) 2079244 [1].toByteArray)
  obtain ⟨file, named₂, hcard₂⟩ := named.write regular Bool.false_ne_true rfl rfl hcard step₂
  obtain ⟨branches₃, step₃, -⟩ := Call.outcome_step sound₂ 3 (.create "/" (longName 'b') .file)
  rcases nextFree_spec regular sound₂.fits with ⟨a, -, -, -, hfree⟩ | ⟨hfull, -⟩
  · exact ⟨a, .inr (.inr (.inl
      ⟨⟨Option.some_ne_none _, named₂.create regular hcard₂ step₃⟩, hfree⟩))⟩
  · rw [hfull, regular.card_covered] at hcard₂
    exact absurd hcard₂ (by decide)

/-! ## What becomes of all blocks -/

section Reliable

variable {τ : Type} [Store τ] [Reliable τ] {layout : Layout} {blockSize : UInt32}

/-- However the calls of a run on a new volume end, every block in use is on the chain of a node
that is found from the root on, except for one at most. That one was the last free block when an
entry was to be created for which space ran out all the same, and since then no block is free. -/
theorem blocks_kept_or_stranded {blank formatted : τ}
    (hformat : format blockSize blank = .ok layout formatted) (calls : List (UInt64 × Call)) :
    ∃ owners : Finset Owner, Census layout (Call.runAll layout calls formatted).2 owners ∧
      (∀ a, isAllocated layout (Call.runAll layout calls formatted).2 a = .ok true ↔
        (∃ owner ∈ owners, a ∈ owner.blocks) ∨ Call.Strands layout calls formatted a) ∧
      ∀ a, Call.Strands layout calls formatted a →
        (∀ owner ∈ owners, a ∉ owner.blocks) ∧
          (∀ b, Call.Strands layout calls formatted b → b = a) ∧
          nextFree layout (Call.runAll layout calls formatted).2 = .error .outOfSpace := by
  have formatted := formatted_of_format hformat
  obtain ⟨branches, lost, sound, kept, hlost⟩ :=
    Call.runAll_kept calls formatted.sound formatted.kept
  simp only [reduceCtorEq, false_or] at hlost
  obtain ⟨owners, census, howners⟩ := sound.mapped.exists_census sound.regular sound.fits
  refine ⟨owners, census, fun a => ?_, fun a ha => ?_⟩
  · rw [isAllocated_iff sound.regular sound.fits, kept.marked_iff, Branches.holds_iff howners,
      hlost]
  have ha := (hlost a).mpr ha
  refine ⟨fun owner howner hmem => ?_, fun b hb => ?_, ?_⟩
  · exact kept.apart a ha ((Branches.holds_iff howners).mpr ⟨owner, howner, hmem⟩)
  · exact Option.some.inj (((hlost b).mpr hb).symm.trans ha)
  · rcases nextFree_spec sound.regular sound.fits with ⟨b, hb, hfree, -⟩ | ⟨-, hnone⟩
    · exact absurd (kept.full (by rw [ha]; rfl) ▸ hb) hfree
    · exact hnone

end Reliable

/-- All blocks of the smallest volume are in use after the calls, and one of them is lost. -/
theorem blocks_kept_on_blank :
    ∃ volume, format 512 (blank 4195840) = .ok smallest volume ∧
      ∃ (owners : Finset Owner) (a : Nat),
        Census smallest (Call.runAll smallest strandingCalls volume).2 owners ∧
        (∀ b, isAllocated smallest (Call.runAll smallest strandingCalls volume).2 b = .ok true ↔
          (∃ owner ∈ owners, b ∈ owner.blocks) ∨ b = a) ∧
        (∀ owner ∈ owners, a ∉ owner.blocks) ∧
        nextFree smallest (Call.runAll smallest strandingCalls volume).2 = .error .outOfSpace := by
  obtain ⟨volume, hformat⟩ := format_blank
  obtain ⟨owners, census, hallocated, hstranded⟩ := blocks_kept_or_stranded hformat strandingCalls
  obtain ⟨a, ha⟩ := strands_strandingCalls hformat
  obtain ⟨hapart, honly, hfull⟩ := hstranded a ha
  refine ⟨volume, hformat, owners, a, census, fun b => (hallocated b).trans ?_, hapart, hfull⟩
  exact or_congr_right ⟨honly b, fun h => h ▸ ha⟩

/-- After the calls a block is in use that is on no chain. -/
theorem create_strands_block :
    ∃ volume, format 512 (blank 4195840) = .ok smallest volume ∧
      ∃ a, isAllocated smallest (Call.runAll smallest strandingCalls volume).2 a = .ok true ∧
        ∀ names node blocks,
          Reachable smallest (Call.runAll smallest strandingCalls volume).2 names node →
          Chain.Follows smallest (Call.runAll smallest strandingCalls volume).2
            node.record.address blocks → a ∉ blocks := by
  obtain ⟨volume, hformat⟩ := format_blank
  have formatted := formatted_of_format hformat
  obtain ⟨branches, lost, sound, kept, hlost⟩ :=
    Call.runAll_kept strandingCalls formatted.sound formatted.kept
  obtain ⟨a, ha⟩ := strands_strandingCalls hformat
  have ha := (hlost a).mpr (.inr ha)
  refine ⟨volume, hformat, a, ?_, fun names node blocks hreachable hfollows hmem => ?_⟩
  · rw [isAllocated_iff sound.regular sound.fits, kept.marked_iff]
    exact .inr ha
  · have hbranch := (sound.mapped.owner_iff sound.regular sound.fits
      ⟨names, node, blocks⟩).mp ⟨hreachable, hfollows⟩
    exact kept.apart a ha ⟨names, _, hbranch, hmem⟩

end ChainFs.Volume
