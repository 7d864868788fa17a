import ChainFs.Proofs.Volume.Runs

/-!
# How much space calls need

Only two kinds of calls take blocks, and from their arguments it can be told how many these are at
most, without looking at the volume: a write needs the blocks that hold its end, even if all of them
are new, and an entry needs one for itself and may need another one for its record. Each call uses
up no more than its share of the blocks that are free, and so the shares of a run add up.

* `Volume.Call.need` — how many blocks a call takes at most;
* `Volume.Call.runAll_spends` — where as many blocks are free as the calls of a run need together,
  space does not run out.
-/

namespace ChainFs.Volume

open Store Bitmap Chain Directory

/-- How many blocks a call takes at most. A write takes those that hold what it fills, and an entry
takes its first block and may need another one for its record. -/
def Call.need (layout : Layout) : Call → Nat
  | .write _ offset data => blocksFor layout (offset + data.size)
  | .create .. | .makeDirectory _ | .createFile _ => 2
  | _ => 0

variable {layout : Layout} {m m' : Content} {size : Nat} {blockSize : UInt32} {branches : Branches}

/-- At most `need` free blocks were taken, and if there were so many, space did not run out. -/
structure Spends (layout : Layout) (need : Nat) (m : Content) {α : Type} (r : Except Error α)
    (m' : Content) : Prop where
  card_le : (marked layout m').card ≤ (marked layout m).card + need
  short : r = .error .outOfSpace → layout.bitmapBits < (marked layout m).card + need

namespace Spends

variable {need : Nat} {α β : Type} {r : Except Error α}

/-- A question takes no blocks, and what it fails for is not space. -/
theorem unchanged (h : ∀ e, r = .error e → e.Refusal) : Spends layout need m r m where
  card_le := Nat.le_add_right ..
  short hr := absurd (h _ hr) id

/-- A refusal takes no blocks. -/
theorem refused {e : Error} (h : e.Refusal) :
    Spends layout need m (.error e : Except Error α) m :=
  .unchanged fun _ he => Except.error.inj he ▸ h

/-- What took its blocks by growth has spent these, and if it ran out of space it had not got all it
needs. -/
theorem of_growth {touched taken : List Nat} {counted : Nat}
    (growth : Growth layout m touched taken counted m') (regular : layout.Regular)
    (hle : taken.length ≤ need)
    (hshort : r = .error .outOfSpace → marked layout m' = layout.covered ∧ taken.length < need) :
    Spends layout need m r m' where
  card_le := by
    have hcard := growth.card_marked
    omega
  short hr := by
    obtain ⟨hfull, hlt⟩ := hshort hr
    have hcard := growth.card_marked
    rw [hfull, regular.card_covered] at hcard
    omega

theorem map {f : α → β} (h : Spends layout need m r m') : Spends layout need m (r.map f) m' where
  card_le := h.card_le
  short hr := h.short <| by
    cases r with
    | ok a => cases hr
    | error e => cases hr; rfl

end Spends

section Step

variable {τ : Type} [Store τ] [Reliable τ] (sound : Sound layout blockSize size m branches)
include sound

/-- **A write** takes at most the blocks that its end needs. -/
theorem write_spends (now : UInt64) (path : String) (offset : Nat) (data : ByteArray) :
    (write layout now path offset data : Edit τ Nat).Ends size m
      (Spends layout ((Call.write path offset data).need layout) m) := by
  obtain ⟨⟨regular, hsize, -, -⟩, mapped⟩ := sound
  rcases hrefusal : writeRefusal branches path offset data.size with _ | e
  · obtain ⟨branch, h, hfile, hlength⟩ := of_writeRefusal hrefusal
    by_cases hdata : data.size = 0
    · refine (write_empty regular hsize mapped now h hfile hdata).mono ?_
      rintro r m' ⟨rfl, rfl⟩
      exact .unchanged fun e he => by cases he
    obtain ⟨newSize, hnewSize⟩ := hlength.resolve_left hdata
    -- the chain has a block already, so it goes on with fewer than the data takes
    have hlt : ∀ added : List Nat, capacity layout (branch.chain ++ added)
        < offset + data.size + layout.payloadSize →
        added.length < (Call.write path offset data).need layout := by
      intro added hlt
      have hblocks := le_blocksFor_mul regular (offset + data.size)
      have hpos := List.length_pos_of_ne_nil (mapped.intact h).ne_nil
      have hchain := Nat.mul_le_mul_right layout.payloadSize hpos
      rw [capacity, List.length_append, Nat.add_mul] at hlt
      exact Nat.lt_of_mul_lt_mul_right (a := layout.payloadSize) (by rw [Call.need]; omega)
    refine (write_ends regular hsize mapped h hfile now (by omega) hnewSize).mono ?_
    rintro r m' (⟨added, rfl, hevolved, -, -, hlength⟩ |
      ⟨added, rfl, hevolved, hfull, hshort, -⟩ | ⟨e, rfl, he, -⟩)
    · obtain ⟨touched, growth⟩ := hevolved.growth
      refine .of_growth growth regular ?_ fun hr => by cases hr
      rcases hlength with rfl | hlength
      · exact Nat.zero_le _
      · exact Nat.le_of_lt (hlt added (by omega))
    · obtain ⟨touched, growth⟩ := hevolved.growth
      have hlt := hlt added (by omega)
      exact .of_growth growth regular (Nat.le_of_lt hlt) fun _ => ⟨hfull, hlt⟩
    · exact absurd he (Reliable.not_fault e)
  · refine (write_refused regular hsize mapped now hrefusal).mono ?_
    rintro r m' ⟨rfl, rfl⟩
    exact .refused (refusal_of_writeRefusal hrefusal)

/-- **A new entry** takes at most two blocks: its own, and one for its record. -/
theorem create_spends (now : UInt64) (path name : String) (kind : Kind) :
    (create layout now path name kind : Edit τ Node).Ends size m (Spends layout 2 m) := by
  obtain ⟨⟨regular, hsize, -, -⟩, mapped⟩ := sound
  rcases hrefusal : createRefusal layout m branches path name with _ | e
  · obtain ⟨branch, h, hcheck, hnew, hlarge⟩ := of_createRefusal hrefusal
    obtain ⟨last, hlast⟩ := (mapped.intact h).exists_last
    refine (create_ends regular hsize mapped h now kind hcheck hnew hlarge).mono ?_
    rintro r m' (⟨b, place, added, rfl, hevolved, hlength⟩ |
      ⟨taken, rfl, hfull, hone, hevolved, -⟩ | ⟨e, rfl, he, -⟩)
    · obtain ⟨touched, growth⟩ := hevolved.growth
      have hle : added.length ≤ 1 := by
        rw [hlength last hlast]
        split <;> omega
      exact .of_growth growth regular (Nat.succ_le_succ hle) fun hr => by cases hr
    · obtain ⟨touched, growth⟩ := hevolved.growth
      exact .of_growth growth regular (by omega) fun _ => ⟨hfull, by omega⟩
    · exact absurd he (Reliable.not_fault e)
  · refine (create_refused regular hsize mapped now kind hrefusal).mono ?_
    rintro r m' ⟨rfl, rfl⟩
    exact .refused (refusal_of_createRefusal hrefusal)

theorem createAt_spends (now : UInt64) (path : String) (kind : Kind) :
    (createAt layout now path kind : Edit τ Node).Ends size m (Spends layout 2 m) := by
  rcases hsplit : Path.splitLast path with e | ⟨parent, name⟩
  · exact .ofExcept_bind_error hsplit (.refused (refusal_of_splitLast hsplit))
  · exact .ofExcept_bind hsplit (create_spends sound now parent name kind)

/-- Every call takes at most what it needs. -/
theorem Call.run_spends (now : UInt64) (call : Call) :
    (call.run layout now : Edit τ Reply).Ends size m (Spends layout (call.need layout) m) := by
  obtain ⟨⟨regular, hsize, sealed, -⟩, mapped⟩ := id sound
  cases call with
  | scan path =>
    refine .map (.ask ?_)
    rintro store rfl rfl
    rw [scan_eq regular hsize mapped]
    exact .map (.unchanged fun e he => by cases he)
  | lookup path =>
    refine .map (.ask ?_)
    rintro store rfl rfl
    exact .map (.unchanged fun e he => lookup_error regular hsize mapped he)
  | list path =>
    refine .map (.ask ?_)
    rintro store rfl rfl
    exact .map (.unchanged fun e he => list_error regular hsize mapped he)
  | read path offset length =>
    refine .map (.ask ?_)
    rintro store rfl rfl
    exact .map (.unchanged fun e he => Volume.read_error regular hsize mapped he)
  | write path offset data =>
    exact .map ((write_spends sound now path offset data).mono fun _ _ => .map)
  | create parent name kind =>
    exact .map ((create_spends sound now parent name kind).mono fun _ _ => .map)
  | makeDirectory path =>
    exact .map ((createAt_spends sound now path .directory).mono fun _ _ => .map)
  | createFile path =>
    exact .map ((createAt_spends sound now path .file).mono fun _ _ => .map)
  | usage =>
    refine .map (.ask ?_)
    rintro store rfl rfl
    rw [sealed.usage_eq regular hsize]
    exact .map (.unchanged fun e he => by cases he)

end Step

variable {τ : Type} [Store τ] [Reliable τ] {store : τ}

/-- Where as many blocks are free as the calls of a run need together, space does not run out. -/
theorem Call.runAll_spends (calls : List (UInt64 × Call))
    (sound : Sound layout blockSize (Store.size store) (content store) branches)
    (hspace : (marked layout (content store)).card + (calls.map (·.2.need layout)).sum
      ≤ layout.bitmapBits) :
    .error .outOfSpace ∉ (Call.runAll layout calls store).1 := by
  induction calls generalizing store branches with
  | nil => exact List.not_mem_nil
  | cons timed rest ih =>
    obtain ⟨now, call⟩ := timed
    rw [List.map_cons, List.sum_cons] at hspace
    dsimp only at hspace
    obtain ⟨hsize, hspends⟩ := (Call.run_spends sound now call).outcome rfl rfl
    obtain ⟨-, hsettled⟩ := (Call.run_ends sound now call).outcome rfl rfl
    obtain ⟨news, taken, branches', hevolved, -⟩ := hsettled.evolved
    have sound' := sound.of_evolved hevolved
    rw [← hsize] at sound'
    have hle := hspends.card_le
    rw [Call.runAll_cons]
    intro hmem
    rcases List.mem_cons.mp hmem with hshort | hmem
    · have hlt := hspends.short hshort.symm
      omega
    · exact ih sound' (by omega) hmem

end ChainFs.Volume
