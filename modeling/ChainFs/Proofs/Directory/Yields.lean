import ChainFs.Proofs.Chain.Slice
import ChainFs.Proofs.Directory.Parse
import Mathlib.Data.List.TakeWhile

/-!
# What walks bring

A walk through a directory of any bytes, from any address on.

Here the budget does matter: on a chain that runs in circles it is what ends the walk. The induction
is on the budget, and each of its cases reads one block: it cannot be read, or its link leads
nowhere, or it leads on where nothing more is followed, or it is followed. What the last link says
is decided without any walk by `Cursor.verdict`, so that the three failures can be told from the
bytes of the volume.

* `Cursor.yields` — all that a walk brings, step by step, until a step brings nothing;
* `Cursor.Outcome` — how a walk may end;
* `Cursor.Brings`, `Cursor.brings_route` — what it brings from the start of a block on, by induction
  on how many links it may follow;
* `Cursor.yields_parse` — a walk brings what the plain reading of the blocks brings, and it fails in
  three cases.
-/

namespace ChainFs

open Store

namespace Cursor

open Directory

variable {σ : Type} [Store σ] {layout : Layout} {store : σ} {cursor moved : Cursor}
  {liveSize budget block offset : Nat}

/-! ## All that a walk brings -/

/-- A step that brings no node ends the walk. -/
theorem finished_of_nextFrom {item : Option (Except Error Node)}
    (h : nextFrom layout store liveSize budget block offset = (moved, item)) :
    moved.finished = true ↔ ∀ node, item ≠ some (.ok node) := by
  fun_induction nextFrom layout store liveSize budget block offset with
  | case6 => rename_i ih; exact ih h
  | _ => cases h; simp

theorem finished_of_next {item : Except Error Node}
    (h : cursor.next layout store = (moved, some item)) :
    cursor.finished = false ∧ (moved.finished = true ↔ ∀ node, item ≠ .ok node) := by
  unfold next at h
  split at h
  · cases h
  · rename_i hfinished
    exact ⟨by simpa using hfinished, by simpa using finished_of_nextFrom h⟩

/-- Behind the end of a walk there is nothing more. -/
theorem next_of_next_none (h : cursor.next layout store = (moved, none)) :
    moved.next layout store = (moved, none) := by
  have hfinished : moved.finished = true := by
    unfold next at h
    split at h
    · rename_i hfinished
      cases h
      exact hfinished
    · exact (finished_of_nextFrom h).mpr fun node => by simp
  rw [next, if_pos hfinished]

/-- A step that brings something comes closer to the end of the walk. -/
theorem next_some_progress {item : Except Error Node}
    (h : cursor.next layout store = (moved, some item)) :
    (!moved.finished).toNat < (!cursor.finished).toNat ∨
      (!moved.finished).toNat = (!cursor.finished).toNat ∧ (moved.budget < cursor.budget ∨
        moved.budget = cursor.budget ∧
          layout.blockSize - moved.offset < layout.blockSize - cursor.offset) := by
  obtain ⟨hrunning, hfinished⟩ := finished_of_next h
  cases item with
  | error e =>
    have hmoved : moved.finished = true := hfinished.mpr fun node hnode => by cases hnode
    left
    simp [hrunning, hmoved]
  | ok node =>
    have hmoved : moved.finished = false := by
      simpa using fun hmoved => hfinished.mp hmoved node rfl
    right
    exact ⟨by rw [hrunning, hmoved], next_progress h⟩

/-- All that a walk brings until a step brings nothing, and where it is then. -/
def yields (layout : Layout) (store : σ) (cursor : Cursor) : List (Except Error Node) × Cursor :=
  match _step : cursor.next layout store with
  | (moved, none) => ([], moved)
  | (moved, some item) =>
    let (items, last) := yields layout store moved
    (item :: items, last)
termination_by ((!cursor.finished).toNat, cursor.budget, layout.blockSize - cursor.offset)
decreasing_by
  simp only [Prod.lex_def]
  exact next_some_progress _step

theorem yields_none (h : cursor.next layout store = (moved, none)) :
    cursor.yields layout store = ([], moved) := by
  rw [yields]
  split <;> simp_all

theorem yields_some {item : Except Error Node}
    (h : cursor.next layout store = (moved, some item)) :
    cursor.yields layout store
      = (item :: (moved.yields layout store).1, (moved.yields layout store).2) := by
  rw [yields]
  split <;> simp_all

/-- A failure is the last thing that a walk brings. -/
theorem yields_error {e : Error} (h : cursor.next layout store = (moved, some (.error e))) :
    cursor.yields layout store = ([.error e], moved) := by
  have hfinished : moved.finished = true :=
    (finished_of_next h).2.mpr fun node hnode => by cases hnode
  have hnone : moved.next layout store = (moved, none) := by rw [next, if_pos hfinished]
  rw [yields_some h, yields_none hnone]

/-- Two walks whose next step is the same bring the same. -/
theorem yields_congr {cursor' : Cursor}
    (h : cursor.next layout store = cursor'.next layout store) :
    cursor.yields layout store = cursor'.yields layout store := by
  rcases hstep : cursor'.next layout store with ⟨moved, _ | item⟩
  · rw [yields_none (h.trans hstep), yields_none hstep]
  · rw [yields_some (h.trans hstep), yields_some hstep]

theorem next_yields (layout : Layout) (store : σ) (cursor : Cursor) :
    (cursor.yields layout store).2.next layout store = ((cursor.yields layout store).2, none) := by
  fun_induction yields layout store cursor with
  | case1 cursor moved hstep => exact next_of_next_none hstep
  | case2 cursor moved item hstep items last hrest ih => rwa [hrest] at ih

/-! ## The steps of a walk, block by block -/

section Walk

variable [Ended σ]

/-- Whether a block and its link can be read. -/
def InReach (layout : Layout) (store : σ) (a : Nat) : Prop :=
  a + layout.blockSize ≤ reach store ∧ a + Layout.linkSize ≤ reach store

instance (layout : Layout) (store : σ) : DecidablePred (InReach layout store) :=
  fun _ => inferInstanceAs (Decidable (_ ∧ _))

/-- The end of the entries of a block, found from a place behind which there are none. -/
theorem firstLive_vacantIn (layout : Layout) (m : Content) (block offset : Nat) :
    firstLive layout.blockSize (m.window block layout.blockSize) (vacantIn layout m block offset)
      = (vacantIn layout m block offset, none) := by
  obtain ⟨hslots, hvacant⟩ := slots_vacant (length?_vacantFrom layout.blockSize
    (m.window block layout.blockSize) offset)
  rcases firstLive_spec layout.blockSize (m.window block layout.blockSize) block
      (vacantIn layout m block offset) with ⟨hlive, -⟩ | ⟨found, record, -, hnodes, -⟩
  · rw [hlive]
    exact congrArg (·, none) hvacant
  · rw [vacantIn, hslots] at hnodes
    cases hnodes

/-- A walk brings the entries of the block it is in, and then what it brings from their end on. -/
theorem yields_block (hpos : 0 < layout.blockSize)
    (hread : block + layout.blockSize ≤ reach store) (liveSize budget offset : Nat) :
    ∃ rest last, yields layout store ⟨block, vacantIn layout (held store) block offset,
        liveSize + extent (nodesFrom layout (held store) block offset), budget, false⟩
          = (rest, last) ∧
      yields layout store ⟨block, offset, liveSize, budget, false⟩
        = ((nodesFrom layout (held store) block offset).map .ok ++ rest, last) := by
  refine ⟨_, _, rfl, ?_⟩
  generalize hnodes : nodesFrom layout (held store) block offset = nodes
  induction nodes generalizing offset liveSize with
  | nil =>
    rcases firstLive_spec layout.blockSize ((held store).window block layout.blockSize) block
        offset with ⟨hlive, -⟩ | ⟨found, record, -, hcons, -⟩
    · -- the rest of the block holds no entry, so that the next step starts at its end as well
      have hstep : next layout store ⟨block, offset, liveSize, budget, false⟩
          = next layout store ⟨block, vacantIn layout (held store) block offset, liveSize, budget,
              false⟩ := by
        rw [next, if_neg Bool.false_ne_true, next, if_neg Bool.false_ne_true]
        unfold nextFrom
        rw [read_within hpos hread]
        dsimp only
        rw [hlive, firstLive_vacantIn]
        rfl
      exact yields_congr hstep
    · rw [nodesFrom, hcons] at hnodes
      cases hnodes
  | cons node nodes ih =>
    rcases firstLive_spec layout.blockSize ((held store).window block layout.blockSize) block
        offset with ⟨-, hnil⟩ | ⟨found, record, hlive, hcons, hvacant⟩
    · rw [nodesFrom, hnil] at hnodes
      cases hnodes
    · rw [nodesFrom, hcons] at hnodes
      obtain ⟨rfl, hrest⟩ := List.cons.inj hnodes
      have hstep : next layout store ⟨block, offset, liveSize, budget, false⟩
          = (⟨block, found + record.encodedSize, liveSize + record.encodedSize, budget, false⟩,
              some (.ok ⟨record, some (block + found)⟩)) := by
        rw [next, if_neg Bool.false_ne_true]
        unfold nextFrom
        rw [read_within hpos hread]
        dsimp only
        rw [hlive]
      have hplace : vacantIn layout (held store) block (found + record.encodedSize)
          = vacantIn layout (held store) block offset := hvacant
      rw [yields_some hstep, ih (liveSize + record.encodedSize) (found + record.encodedSize) hrest,
        hplace, extent_cons, Nat.add_assoc]
      rfl

/-- What the link of the last block that a walk comes to says: it ends the chain, or it leads out of
the data region, or it leads on where no more links are followed. -/
def verdict (layout : Layout) (m : Content) (last : Nat) : Option Error :=
  if Chain.target layout m last = 0 then none
  else if layout.InData (Chain.target layout m last) then
    some (.invalidImage (.endlessDirectory last))
  else some (.invalidAddress (Chain.target layout m last))

theorem verdict_eq_none_iff {m : Content} {last : Nat} :
    verdict layout m last = none ↔ Chain.target layout m last = 0 := by
  unfold verdict
  split
  · exact iff_of_true rfl ‹_›
  · split <;> exact iff_of_false nofun ‹_›

theorem verdict_eq_astray_iff {m : Content} {last x : Nat} :
    verdict layout m last = some (.invalidAddress x) ↔
      Chain.target layout m last = x ∧ x ≠ 0 ∧ ¬ layout.InData x := by
  unfold verdict
  split
  · exact iff_of_false nofun fun ⟨hx, hne, _⟩ => hne (hx ▸ ‹_›)
  · split
    · exact iff_of_false nofun fun ⟨hx, _, hout⟩ => hout (hx ▸ ‹_›)
    · rename_i hne hout
      constructor
      · rintro h
        cases h
        exact ⟨rfl, hne, hout⟩
      · rintro ⟨rfl, -⟩
        rfl

theorem verdict_eq_endless_iff (hdata : 0 < layout.dataAddress) {m : Content} {last b : Nat} :
    verdict layout m last = some (.invalidImage (.endlessDirectory b)) ↔
      last = b ∧ layout.InData (Chain.target layout m last) := by
  unfold verdict
  split
  · rename_i hzero
    rw [hzero]
    exact iff_of_false nofun fun ⟨_, hinside⟩ => absurd hinside.1 (by omega)
  · split
    · rename_i hinside
      constructor
      · rintro h
        cases h
        exact ⟨rfl, hinside⟩
      · rintro ⟨rfl, -⟩
        rfl
    · exact iff_of_false nofun fun ⟨_, hinside⟩ => absurd hinside ‹_›

theorem verdict_ne_io {m : Content} {last : Nat} {fault : AccessFault} :
    verdict layout m last ≠ some (.io fault) := by
  unfold verdict
  split
  · nofun
  · split <;> nofun

/-- How a walk ends that comes to `blocks`: with nothing, or with a failure. -/
inductive Outcome (layout : Layout) (store : σ) (blocks : List Nat) : Option Error → Prop
  /-- A block cannot be read. -/
  | unreadable {a : Nat} (fault : AccessFault) (mem : a ∈ blocks)
      (past : ¬ InReach layout store a) : Outcome layout store blocks (some (.io fault))
  /-- All of them can be read. -/
  | read {last : Nat} (inReach : ∀ a ∈ blocks, InReach layout store a)
      (getLast : blocks.getLast? = some last) :
      Outcome layout store blocks (verdict layout (held store) last)

/-- A block in front of those that a walk comes to is one more of them. -/
theorem Outcome.cons {a b : Nat} {rest : List Nat} {failure : Option Error}
    (ha : InReach layout store a) (h : Outcome layout store (b :: rest) failure) :
    Outcome layout store (a :: b :: rest) failure := by
  cases h with
  | unreadable fault mem past => exact .unreadable fault (List.mem_cons_of_mem _ mem) past
  | read inReach getLast =>
    exact .read (fun c hc => (List.mem_cons.mp hc).elim (fun hca => hca ▸ ha) (inReach c)) getLast

/-- Behind the last entry of a block a walk follows the link. -/
theorem next_vacantIn (hpos : 0 < layout.blockSize)
    (hread : block + layout.blockSize ≤ reach store) (liveSize budget offset : Nat) :
    next layout store
        ⟨block, vacantIn layout (held store) block offset, liveSize, budget, false⟩ =
      match Chain.next layout store block with
      | .error e => (⟨block, vacantIn layout (held store) block offset, liveSize, budget, true⟩,
          some (.error e))
      | .ok target =>
        if target = 0 then
          (⟨block, vacantIn layout (held store) block offset, liveSize, budget, true⟩, none)
        else
          match budget with
          | 0 => (⟨block, vacantIn layout (held store) block offset, liveSize, 0, true⟩,
              some (.error (.invalidImage (.endlessDirectory block))))
          | budget + 1 => next layout store ⟨target, firstRecord, liveSize, budget, false⟩ := by
  rw [next, if_neg Bool.false_ne_true]
  unfold nextFrom
  rw [read_within hpos hread]
  dsimp only
  rw [firstLive_vacantIn]
  cases budget <;> rfl

/-- A block without room for a record has no entries. -/
theorem nodesFrom_eq_nil {m : Content} (h : layout.blockSize < offset) :
    nodesFrom layout m block offset = [] := by
  refine List.eq_nil_iff_forall_not_mem.mpr fun node hnode => ?_
  obtain ⟨place, -, hge, hend, -⟩ := mem_nodesFrom hnode
  omega

/-- A walk that cannot read the block it comes to, or its link, fails and brings nothing. -/
theorem yields_unreadable (hpos : 0 < layout.blockSize) (h : ¬ InReach layout store block)
    (liveSize budget : Nat) :
    ∃ fault last, yields layout store ⟨block, firstRecord, liveSize, budget, false⟩
      = ([.error (.io fault)], last) := by
  by_cases hread : block + layout.blockSize ≤ reach store
  · -- the block is shorter than a link, and so it has no entries
    have hlink : reach store < block + Layout.linkSize := by
      rw [InReach] at h
      omega
    have hnone : nodesFrom layout (held store) block firstRecord = [] :=
      nodesFrom_eq_nil (by rw [firstRecord]; omega)
    obtain ⟨rest, last, hrest, hyields⟩ :=
      yields_block hpos hread liveSize budget firstRecord
    rcases Chain.next_cases layout store block with
      ⟨hwithin, -⟩ | ⟨hwithin, -⟩ | ⟨-, fault, hnext⟩
    · omega
    · omega
    · have hstep := next_vacantIn hpos hread
        (liveSize + extent (nodesFrom layout (held store) block firstRecord)) budget firstRecord
      rw [hnext] at hstep
      rw [yields_error hstep] at hrest
      rw [hyields, hnone, ← (Prod.mk.inj hrest).1]
      exact ⟨fault, last, rfl⟩
  · obtain ⟨fault, hfails⟩ : ∃ fault,
        Store.read store block layout.blockSize = .error (.io fault) :=
      read_past hpos (Nat.lt_of_not_le hread)
    have hstep : next layout store ⟨block, firstRecord, liveSize, budget, false⟩
        = (⟨block, firstRecord, liveSize, budget, true⟩, some (.error (.io fault))) := by
      rw [next, if_neg Bool.false_ne_true]
      unfold nextFrom
      rw [hfails]
    exact ⟨fault, _, yields_error hstep⟩

/-- What a walk brings that comes to `blocks` and has seen records of `seen` bytes before. -/
structure Brings (layout : Layout) (store : σ) (seen : Nat) (blocks : List Nat)
    (failure : Option Error) (result : List (Except Error Node) × Cursor) : Prop where
  /-- It brings the entries of the blocks in front of the first one that cannot be read, and then
  the failure, if there is one. -/
  items_eq : result.1 = (entries layout (held store)
    (blocks.takeWhile (InReach layout store ·))).map .ok ++ failure.toList.map .error
  outcome : Outcome layout store blocks failure
  /-- If there is none, it ends behind the last record of the last block. -/
  tail : failure = none → blocks.getLast? = some result.2.block ∧
    result.2.offset = vacantIn layout (held store) result.2.block firstRecord ∧
    result.2.liveSize = seen + extent (entries layout (held store) blocks)

/-- Where the block cannot be read. -/
theorem brings_unreadable (hpos : 0 < layout.blockSize) (h : ¬ InReach layout store block)
    (liveSize budget : Nat) :
    ∃ failure, Brings layout store liveSize (route layout (held store) budget block) failure
      (yields layout store ⟨block, firstRecord, liveSize, budget, false⟩) := by
  obtain ⟨fault, last, hyields⟩ := yields_unreadable hpos h liveSize budget
  obtain ⟨rest, hroute⟩ := exists_route layout (held store) budget block
  refine ⟨some (.io fault), ?_, .unreadable fault ?_ h, fun hnone => by cases hnone⟩
  · rw [hyields, hroute, List.takeWhile_cons_of_neg (by simpa using h)]
    rfl
  · rw [hroute]
    exact List.mem_cons_self ..

/-- Where the link leads nowhere. -/
theorem brings_last (hpos : 0 < layout.blockSize) (h : InReach layout store block)
    (hout : ¬ layout.InData (Chain.target layout (held store) block)) (liveSize budget : Nat) :
    ∃ failure, Brings layout store liveSize (route layout (held store) budget block) failure
      (yields layout store ⟨block, firstRecord, liveSize, budget, false⟩) := by
  have hroute : route layout (held store) budget block = [block] := by
    cases budget with
    | zero => rfl
    | succ budget => rw [route, if_neg hout]
  have houtcome : Outcome layout store [block] (verdict layout (held store) block) :=
    .read (by simpa using h) rfl
  obtain ⟨rest, last, hrest, hyields⟩ := yields_block hpos h.1 liveSize budget firstRecord
  have hstep := next_vacantIn hpos h.1
    (liveSize + extent (nodesFrom layout (held store) block firstRecord)) budget firstRecord
  rw [hroute, hyields]
  rcases Chain.next_cases layout store block with
    ⟨-, hzero | hinside, hnext⟩ | ⟨-, hne, -, hnext⟩ | ⟨hpast, -⟩
  · -- the chain ends here
    rw [hnext] at hstep
    dsimp only at hstep
    rw [if_pos hzero] at hstep
    rw [yields_none hstep] at hrest
    obtain ⟨rfl, rfl⟩ := Prod.mk.inj hrest
    rw [verdict, if_pos hzero] at houtcome
    refine ⟨none, ?_, houtcome, fun _ => ⟨rfl, rfl, ?_⟩⟩
    · rw [List.takeWhile_cons_of_pos (by simpa using h)]
      simp
    · simp
  · exact absurd hinside hout
  · rw [hnext] at hstep
    rw [yields_error hstep] at hrest
    obtain ⟨rfl, rfl⟩ := Prod.mk.inj hrest
    rw [verdict, if_neg hne, if_neg hout] at houtcome
    refine ⟨_, ?_, houtcome, fun hnone => by cases hnone⟩
    rw [List.takeWhile_cons_of_pos (by simpa using h)]
    simp
  · have := h.2
    omega

/-- Where the link leads on, but no more links are followed. -/
theorem brings_endless (hpos : 0 < layout.blockSize) (hdata : 0 < layout.dataAddress)
    (h : InReach layout store block)
    (hinside : layout.InData (Chain.target layout (held store) block)) (liveSize : Nat) :
    ∃ failure, Brings layout store liveSize (route layout (held store) 0 block) failure
      (yields layout store ⟨block, firstRecord, liveSize, 0, false⟩) := by
  have houtcome : Outcome layout store [block] (verdict layout (held store) block) :=
    .read (by simpa using h) rfl
  have hne : Chain.target layout (held store) block ≠ 0 := by
    have := hinside.1
    omega
  obtain ⟨rest, last, hrest, hyields⟩ := yields_block hpos h.1 liveSize 0 firstRecord
  have hstep := next_vacantIn hpos h.1
    (liveSize + extent (nodesFrom layout (held store) block firstRecord)) 0 firstRecord
  rw [route, hyields]
  rcases Chain.next_cases layout store block with ⟨-, -, hnext⟩ | ⟨-, -, hout, -⟩ | ⟨hpast, -⟩
  · rw [hnext] at hstep
    dsimp only at hstep
    rw [if_neg hne] at hstep
    rw [yields_error hstep] at hrest
    obtain ⟨rfl, rfl⟩ := Prod.mk.inj hrest
    rw [verdict, if_neg hne, if_pos hinside] at houtcome
    refine ⟨_, ?_, houtcome, fun hnone => by cases hnone⟩
    rw [List.takeWhile_cons_of_pos (by simpa using h)]
    simp
  · exact absurd hinside hout
  · have := h.2
    omega

/-- Where the link leads on and is followed. -/
theorem brings_over (hpos : 0 < layout.blockSize) (hdata : 0 < layout.dataAddress)
    (h : InReach layout store block)
    (hinside : layout.InData (Chain.target layout (held store) block)) (liveSize budget : Nat)
    {failure : Option Error}
    (hnext : Brings layout store
      (liveSize + extent (nodesFrom layout (held store) block firstRecord))
      (route layout (held store) budget (Chain.target layout (held store) block)) failure
      (yields layout store ⟨Chain.target layout (held store) block, firstRecord,
        liveSize + extent (nodesFrom layout (held store) block firstRecord), budget, false⟩)) :
    Brings layout store liveSize (route layout (held store) (budget + 1) block) failure
      (yields layout store ⟨block, firstRecord, liveSize, budget + 1, false⟩) := by
  have hne : Chain.target layout (held store) block ≠ 0 := by
    have := hinside.1
    omega
  obtain ⟨rest, last, hrest, hyields⟩ := yields_block hpos h.1 liveSize (budget + 1) firstRecord
  have hstep := next_vacantIn hpos h.1
    (liveSize + extent (nodesFrom layout (held store) block firstRecord)) (budget + 1) firstRecord
  obtain ⟨more, hroute⟩ :=
    exists_route layout (held store) budget (Chain.target layout (held store) block)
  rcases Chain.next_cases layout store block with ⟨-, -, hlink⟩ | ⟨-, -, hout, -⟩ | ⟨hpast, -⟩
  · rw [hlink] at hstep
    dsimp only at hstep
    rw [if_neg hne] at hstep
    rw [yields_congr hstep] at hrest
    rw [hrest] at hnext
    obtain ⟨hitems, houtcome, htail⟩ := hnext
    dsimp only at hitems htail
    rw [hyields, route, if_pos hinside]
    refine ⟨?_, ?_, fun hnone => ?_⟩
    · rw [List.takeWhile_cons_of_pos (by simpa using h), entries_cons, List.map_append,
        List.append_assoc, ← hitems]
    · rw [hroute] at houtcome ⊢
      exact houtcome.cons h
    · obtain ⟨hlast, hoffset, hlive⟩ := htail hnone
      refine ⟨?_, hoffset, ?_⟩
      · rw [hroute] at hlast ⊢
        exact hlast
      · rw [entries_cons, hlive, extent_append, Nat.add_assoc]
  · exact absurd hinside hout
  · have := h.2
    omega

/-- What a walk brings from the start of a block on. -/
theorem brings_route (hpos : 0 < layout.blockSize) (hdata : 0 < layout.dataAddress)
    (budget block liveSize : Nat) :
    ∃ failure, Brings layout store liveSize (route layout (held store) budget block) failure
      (yields layout store ⟨block, firstRecord, liveSize, budget, false⟩) := by
  induction budget generalizing block liveSize with
  | zero =>
    by_cases hreach : InReach layout store block
    · by_cases hinside : layout.InData (Chain.target layout (held store) block)
      · exact brings_endless hpos hdata hreach hinside liveSize
      · exact brings_last hpos hreach hinside liveSize 0
    · exact brings_unreadable hpos hreach liveSize 0
  | succ budget ih =>
    by_cases hreach : InReach layout store block
    · by_cases hinside : layout.InData (Chain.target layout (held store) block)
      · obtain ⟨failure, hnext⟩ := ih (Chain.target layout (held store) block)
          (liveSize + extent (nodesFrom layout (held store) block firstRecord))
        exact ⟨failure, brings_over hpos hdata hreach hinside liveSize budget hnext⟩
      · exact brings_last hpos hreach hinside liveSize (budget + 1)
    · exact brings_unreadable hpos hreach liveSize (budget + 1)

/-! ## Whole walks -/

/-- A walk from `start` on that comes to `blocks` brings the nodes of a plain reading, and it ends
with a failure in three cases only. -/
structure Reading (layout : Layout) (store : σ) (start : Nat) (blocks : List Nat)
    (nodes : List Node) (failure : Option Error) (last : Cursor) : Prop where
  /-- The nodes are those that a plain reading finds block by block, in front of the first block
  that cannot be read. -/
  nodes_eq : nodes = (blocks.takeWhile (InReach layout store ·)).flatMap
    (parsed layout (held store))
  /-- Each of them stands in one block as a whole, behind the link, at the place it tells. -/
  inside : ∀ node ∈ nodes, ∃ a ∈ blocks, ∃ place, node.recordAddress = some (a + place) ∧
    Layout.linkSize ≤ place ∧ place + node.record.encodedSize ≤ layout.blockSize ∧
    node.record.encode layout.blockSize
      = .ok ((held store).window (a + place) node.record.encodedSize)
  unreadable_iff : (∃ fault, failure = some (.io fault)) ↔ ∃ a ∈ blocks, ¬ InReach layout store a
  astray_iff : ∀ x, failure = some (.invalidAddress x) ↔
    (∀ a ∈ blocks, InReach layout store a) ∧ ∃ b, blocks.getLast? = some b ∧
      Chain.target layout (held store) b = x ∧ x ≠ 0 ∧ ¬ layout.InData x
  /-- As many links were followed as the bitmap has bits, and there is one more. -/
  endless_iff : ∀ b, failure = some (.invalidImage (.endlessDirectory b)) ↔
    (∀ a ∈ blocks, InReach layout store a) ∧ blocks.length = layout.bitmapBits + 1 ∧
      blocks.getLast? = some b ∧ layout.InData (Chain.target layout (held store) b)
  done_iff : failure = none ↔ (∀ a ∈ blocks, InReach layout store a) ∧
    ∃ b, blocks.getLast? = some b ∧ Chain.target layout (held store) b = 0
  /-- Without a failure it ends where the plain reading of the last block does, and has counted the
  bytes of all records that it brought. -/
  tail : failure = none → blocks.getLast? = some last.block ∧
    last.offset = parsedEnd layout (held store) last.block ∧
    last.liveSize = (nodes.map (·.record.encodedSize)).sum
  /-- A chain that comes back to one of its blocks is told, and is called endless if all its blocks
  can be read and lie in the data region. -/
  cyclic : ∀ i n, 0 < n → (Chain.target layout (held store))^[i + n] start
      = (Chain.target layout (held store))^[i] start →
    (∀ k ≤ i + n, 0 < k → (Chain.target layout (held store))^[k] start ≠ 0) →
    failure ≠ none ∧ ((∀ k ≤ i + n, InReach layout store
        ((Chain.target layout (held store))^[k] start) ∧
        (0 < k → layout.InData ((Chain.target layout (held store))^[k] start))) →
      ∃ b, failure = some (.invalidImage (.endlessDirectory b)))
  /-- A chain of different blocks that the bitmap speaks of is never called endless. -/
  acyclic : ∀ rest, Chain.Linked layout (held store) (start :: rest) → (start :: rest).Nodup →
    (∀ a ∈ start :: rest, a ∈ layout.covered) →
    (∀ b, failure ≠ some (.invalidImage (.endlessDirectory b))) ∧
      ((∀ a ∈ start :: rest, InReach layout store a) → failure = none)

/-- Unless a block cannot be read, the link of the last one decides. -/
theorem Outcome.eq_iff {blocks : List Nat} {failure failure' : Option Error}
    (h : Outcome layout store blocks failure) (hfailure : ∀ fault, failure' ≠ some (.io fault)) :
    failure = failure' ↔ (∀ a ∈ blocks, InReach layout store a) ∧
      ∃ b, blocks.getLast? = some b ∧ verdict layout (held store) b = failure' := by
  cases h with
  | unreadable fault mem past =>
    exact iff_of_false (fun heq => hfailure fault heq.symm) fun ⟨inReach, _⟩ => past (inReach _ mem)
  | read inReach getLast =>
    constructor
    · exact fun heq => ⟨inReach, _, getLast, heq⟩
    · rintro ⟨-, b, hb, heq⟩
      obtain rfl := Option.some.inj (getLast.symm.trans hb)
      exact heq

theorem Outcome.unreadable_iff {blocks : List Nat} {failure : Option Error}
    (h : Outcome layout store blocks failure) :
    (∃ fault, failure = some (.io fault)) ↔ ∃ a ∈ blocks, ¬ InReach layout store a := by
  cases h with
  | unreadable fault mem past => exact iff_of_true ⟨fault, rfl⟩ ⟨_, mem, past⟩
  | read inReach getLast =>
    exact iff_of_false (fun ⟨_, hio⟩ => verdict_ne_io hio) fun ⟨a, ha, past⟩ => past (inReach a ha)

/-- A node that is brought stands in its block as a whole. -/
theorem encode_of_mem_entries (hpos : 0 < layout.blockSize) {m : Content} {chain : List Nat}
    {node : Node} (h : node ∈ entries layout m chain) :
    ∃ a ∈ chain, ∃ place, node.recordAddress = some (a + place) ∧ Layout.linkSize ≤ place ∧
      place + node.record.encodedSize ≤ layout.blockSize ∧
      node.record.encode layout.blockSize
        = .ok (m.window (a + place) node.record.encodedSize) := by
  obtain ⟨a, ha, place, hplace, hge, hend, -, hslot, -⟩ := mem_entries h
  have hbytes := Record.encode_of_decode hpos (bounds_of_mem hslot).2.1.symm
  have hlength : min (place + node.record.encodedSize) layout.blockSize - place
      = node.record.encodedSize := by omega
  rw [Content.extract_window, hlength] at hbytes
  exact ⟨a, ha, place, hplace, hge, hend, hbytes⟩

/-- On a way that comes back to where it was, nothing new is met afterwards. -/
theorem exists_iterate_le {f : Nat → Nat} {start i n : Nat} (hn : 0 < n)
    (hcycle : f^[i + n] start = f^[i] start) (k : Nat) :
    ∃ j ≤ i + n, (0 < k → 0 < j) ∧ f^[k] start = f^[j] start := by
  induction k using Nat.strong_induction_on with
  | _ k ih =>
    by_cases hk : k ≤ i + n
    · exact ⟨k, hk, id, rfl⟩
    · obtain ⟨j, hj, hpos, heq⟩ := ih (k - n) (by omega)
      refine ⟨j, hj, fun _ => hpos (by omega), ?_⟩
      calc f^[k] start
          = f^[k - (i + n)] (f^[i + n] start) := by
            rw [← Function.iterate_add_apply, Nat.sub_add_cancel (by omega)]
        _ = f^[k - n] start := by
            rw [hcycle, ← Function.iterate_add_apply]
            congr 2
            omega
        _ = f^[j] start := heq

/-- A chain that comes back to one of its blocks does not end. -/
theorem Outcome.of_cycle {start limit i n : Nat} {failure : Option Error} (hn : 0 < n)
    (h : Outcome layout store (route layout (held store) limit start) failure)
    (hcycle : (Chain.target layout (held store))^[i + n] start
      = (Chain.target layout (held store))^[i] start)
    (hne : ∀ k ≤ i + n, 0 < k → (Chain.target layout (held store))^[k] start ≠ 0) :
    failure ≠ none ∧ ((∀ k ≤ i + n, InReach layout store
        ((Chain.target layout (held store))^[k] start) ∧
        (0 < k → layout.InData ((Chain.target layout (held store))^[k] start))) →
      ∃ b, failure = some (.invalidImage (.endlessDirectory b))) := by
  -- the link of each block that is met leads to a block of the circle or of the way there
  have hlinks : ∀ b ∈ route layout (held store) limit start, ∃ j ≤ i + n, 0 < j ∧
      Chain.target layout (held store) b = (Chain.target layout (held store))^[j] start := by
    intro b hb
    obtain ⟨k, rfl⟩ := exists_iterate_of_mem_route hb
    obtain ⟨j, hj, hpos, heq⟩ := exists_iterate_le hn hcycle (k + 1)
    exact ⟨j, hj, hpos (Nat.succ_pos k), (Function.iterate_succ_apply' ..).symm.trans heq⟩
  cases h with
  | unreadable fault mem past =>
    refine ⟨nofun, fun hinside => ?_⟩
    obtain ⟨k, rfl⟩ := exists_iterate_of_mem_route mem
    obtain ⟨j, hj, -, heq⟩ := exists_iterate_le hn hcycle k
    exact absurd (heq ▸ (hinside j hj).1) past
  | read inReach getLast =>
    obtain ⟨j, hj, hpos, htarget⟩ := hlinks _ (List.mem_of_getLast? getLast)
    refine ⟨fun hnone => hne j hj hpos (htarget ▸ verdict_eq_none_iff.mp hnone), fun hinside => ?_⟩
    rw [verdict, htarget, if_neg (hne j hj hpos), if_pos ((hinside j hj).2 hpos)]
    exact ⟨_, rfl⟩

/-- A chain of different blocks that the bitmap speaks of is followed to its end. -/
theorem Outcome.of_linked {start : Nat} {rest : List Nat} {failure : Option Error}
    (regular : layout.Arranged fun _ => True)
    (h : Outcome layout store (route layout (held store) layout.bitmapBits start) failure)
    (hlinked : Chain.Linked layout (held store) (start :: rest)) (hnodup : (start :: rest).Nodup)
    (hcovered : ∀ a ∈ start :: rest, a ∈ layout.covered) :
    (∀ b, failure ≠ some (.invalidImage (.endlessDirectory b))) ∧
      ((∀ a ∈ start :: rest, InReach layout store a) → failure = none) := by
  have hdata := regular.data_pos
  have hlength : (start :: rest).length ≤ layout.bitmapBits := by
    rw [← regular.card_covered, ← List.toFinset_card_of_nodup hnodup]
    exact Finset.card_le_card fun a ha => hcovered a (List.mem_toFinset.mp ha)
  have hroute := route_of_linked hdata hlinked
    (fun b hb => regular.inData_of_mem (hcovered b (List.mem_cons_of_mem _ hb)))
    (Nat.le_of_succ_le hlength)
  obtain ⟨last, hlast⟩ : ∃ last, (start :: rest).getLast? = some last :=
    ⟨_, List.getLast?_eq_some_getLast (List.cons_ne_nil _ _)⟩
  have htarget : Chain.target layout (held store) last = 0 := hlinked.target_last hlast
  rw [hroute] at h
  refine ⟨fun b hendless => ?_, fun hreach => (h.eq_iff (by nofun)).mpr
    ⟨hreach, last, hlast, verdict_eq_none_iff.mpr htarget⟩⟩
  obtain ⟨-, b', hb', hverdict⟩ := (h.eq_iff (by nofun)).mp hendless
  obtain rfl := Option.some.inj (hlast.symm.trans hb')
  rw [verdict_eq_none_iff.mpr htarget] at hverdict
  cases hverdict

/-- **A walk is a plain reading.** Whatever bytes a volume holds and wherever a walk starts, it
brings the entries that a plain reading of the blocks finds to which the links lead. It fails where
a block cannot be read, where a link leads out of the data region, and where more links lead on than
the bitmap has bits; behind its end there is nothing more. -/
theorem yields_parse {superblock : Superblock} {configured : UInt32}
    (hlayout : Layout.ofSuperblock superblock configured = .ok layout) (store : σ) (start : Nat) :
    ∃ nodes failure last, (Cursor.start layout start).yields layout store
        = (nodes.map .ok ++ failure.toList.map .error, last) ∧
      last.next layout store = (last, none) ∧
      Reading layout store start (route layout (held store) layout.bitmapBits start) nodes failure
        last := by
  have regular : layout.Arranged fun _ => True :=
    Layout.arranged_of_ofSuperblock (Layout.pos_of_ofSuperblock hlayout) trivial hlayout
  have hdata := regular.data_pos
  obtain ⟨failure, hitems, houtcome, htail⟩ : ∃ failure, Brings layout store 0
      (route layout (held store) layout.bitmapBits start) failure
      ((Cursor.start layout start).yields layout store) :=
    brings_route regular.blockSize_pos hdata layout.bitmapBits start 0
  have hentries : ∀ chain, entries layout (held store) chain
      = chain.flatMap (parsed layout (held store)) :=
    fun chain => List.flatMap_congr fun a _ => (parsed_eq layout (held store) a).symm
  refine ⟨_, failure, _, Prod.ext hitems rfl, next_yields .., hentries _, ?_,
    houtcome.unreadable_iff, fun x => (houtcome.eq_iff (by nofun)).trans ?_,
    fun b => (houtcome.eq_iff (by nofun)).trans ?_, (houtcome.eq_iff (by nofun)).trans ?_,
    fun hnone => ?_, fun i n hn hcycle hne => houtcome.of_cycle hn hcycle hne,
    fun rest hlinked hnodup hcovered => houtcome.of_linked regular hlinked hnodup hcovered⟩
  · intro node hnode
    obtain ⟨a, ha, hplace⟩ := encode_of_mem_entries regular.blockSize_pos hnode
    exact ⟨a, List.takeWhile_subset _ ha, hplace⟩
  · simp only [verdict_eq_astray_iff]
  · simp only [verdict_eq_endless_iff hdata]
    constructor
    · rintro ⟨hreach, last, hlast, rfl, hinside⟩
      exact ⟨hreach, length_route hlast hinside, hlast, hinside⟩
    · rintro ⟨hreach, -, hlast, hinside⟩
      exact ⟨hreach, b, hlast, rfl, hinside⟩
  · simp only [verdict_eq_none_iff]
  · obtain ⟨hlast, hoffset, hlive⟩ := htail hnone
    have hreach := ((houtcome.eq_iff (by nofun)).mp hnone).1
    rw [hlive, Nat.zero_add, List.takeWhile_eq_self_iff.mpr (by simpa using hreach)]
    exact ⟨hlast, hoffset.trans (parsedEnd_eq ..).symm, rfl⟩

end Walk

/-! ## A block that leads to itself -/

/-- A layout with blocks of 32 bytes. -/
def small : Layout where
  blockSize := 32
  blockCount := 4355
  superblockAddress := 131072
  bitmapAddress := 131136
  dataAddress := 131168

/-- A block with one entry, whose link leads to the first block of the data region. -/
def circle : ByteArray :=
  ⟨#[0, 0, 0x10, 0x03, 1, 0, 0, 0x10, 0x04, 0, 0, 0, 0, 0, 0, 0, 0, 0, 0, 0, 0, 1, 0x61]⟩

/-- A volume that is zero but for this block, which is the first one. -/
def circleVolume : Memory :=
  ⟨Bytes.overlay (Bytes.zeros 139360) 131168 circle⟩

/-- A walk there does not go on forever. -/
theorem yields_parse_circle :
    Layout.ofSuperblock ⟨32, 4355, 0⟩ 32 = .ok small ∧
      ∃ (nodes : List Node) (last : Cursor), (Cursor.start small 131168).yields small circleVolume
        = (nodes.map .ok ++ [.error (.invalidImage (.endlessDirectory 131168))], last) ∧
        last.next small circleVolume = (last, none) := by
  have hlayout : Layout.ofSuperblock ⟨32, 4355, 0⟩ 32 = .ok small := by decide
  have hzeros : 131168 + circle.size ≤ (Bytes.zeros 139360).size := by
    rw [Bytes.size_zeros]
    decide
  have hheld : held circleVolume = Content.put (fun _ => 0) 131168 circle := by
    funext i
    have hget : held circleVolume i = Bytes.get circleVolume.bytes i := rfl
    rw [hget, circleVolume, Bytes.get_overlay _ (by omega), Bytes.get_zeros]
    rfl
  have hreach : reach circleVolume = 139360 := by
    have hvolume : reach circleVolume
        = (Bytes.overlay (Bytes.zeros 139360) 131168 circle).size := rfl
    rw [hvolume, Bytes.size_overlay hzeros, Bytes.size_zeros]
  have htarget : Chain.target small (held circleVolume) 131168 = 131168 := by
    rw [hheld]
    decide +kernel
  have hstay : ∀ k, (Chain.target small (held circleVolume))^[k] 131168 = 131168 :=
    fun k => Function.iterate_fixed htarget k
  have hinside : InReach small circleVolume 131168 := by
    rw [InReach, hreach]
    decide
  obtain ⟨nodes, failure, last, hyields, hagain, reading⟩ :=
    yields_parse hlayout circleVolume 131168
  obtain ⟨b, rfl⟩ := (reading.cyclic 0 1 Nat.one_pos (by rw [hstay, hstay])
    fun k _ _ => by rw [hstay]; decide).2 fun k _ => by
      rw [hstay]
      exact ⟨hinside, fun _ => by decide⟩
  obtain ⟨-, -, hlast, -⟩ := (reading.endless_iff b).mp rfl
  obtain ⟨k, hk⟩ := exists_iterate_of_mem_route (List.mem_of_getLast? hlast)
  obtain rfl : 131168 = b := (hstay k).symm.trans hk
  exact ⟨hlayout, nodes, last, hyields, hagain⟩

end Cursor

end ChainFs
