import ChainFs.Proofs.Directory.Yields

/-!
# Walks on two stores

A walk sees of a store no more than the entries of the blocks it comes to, the place where they end
and the links. Where two stores show the same of these, up to a change of each entry for itself, a
walk brings the same on both, up to that change.

* `Cursor.onward` — what a walk brings behind the last entry of a block. `Cursor.yields_turn` takes
  a walk apart into its blocks;
* `Cursor.entries_of_walk` — what a walk without a failure brings are the entries of the first
  blocks of the chain;
* `Cursor.Recast` — what two stores have to show alike of a block, and `Cursor.yields_recast`: if
  they do so for each block of the chain, a walk brings the same, changed in this way.

Failures are part of what a walk brings, so the two walks also fail in the same way and at the same
place.
-/

namespace ChainFs

open Store

namespace Cursor

open Directory

variable {σ : Type} [Store σ] {layout : Layout} {store after : σ} {f : Node → Node}
  {block budget liveSize : Nat}

/-! ## Walks, one block at a time -/

/-- What a walk brings from the end of the entries of a block on: it follows the link. -/
def onward (layout : Layout) (store : σ) (cursor : Cursor) : List (Except Error Node) × Cursor :=
  match Chain.next layout store cursor.block with
  | .error e => ([.error e], { cursor with finished := true })
  | .ok target =>
    if target = 0 then ([], { cursor with finished := true })
    else
      match cursor.budget with
      | 0 => ([.error (.invalidImage (.endlessDirectory cursor.block))],
          { cursor with finished := true })
      | budget + 1 => yields layout store ⟨target, firstRecord, cursor.liveSize, budget, false⟩

theorem onward_end (h : Chain.next layout store block = .ok 0) (offset liveSize budget : Nat) :
    onward layout store ⟨block, offset, liveSize, budget, false⟩
      = ([], ⟨block, offset, liveSize, budget, true⟩) := by
  unfold onward
  dsimp only
  rw [h]
  rfl

theorem onward_link {target : Nat} (h : Chain.next layout store block = .ok target)
    (hne : target ≠ 0) (offset liveSize budget : Nat) :
    onward layout store ⟨block, offset, liveSize, budget + 1, false⟩
      = yields layout store ⟨target, firstRecord, liveSize, budget, false⟩ := by
  unfold onward
  dsimp only
  rw [h]
  exact if_neg hne

/-- Behind the last entry of a block there is nothing more, or it is in the block that the link
leads to. -/
theorem onward_cases (layout : Layout) (store : σ) (cursor : Cursor) :
    (onward layout store cursor).1.filterMap Except.toOption = [] ∨
    ∃ target budget, Chain.next layout store cursor.block = .ok target ∧ target ≠ 0 ∧
      cursor.budget = budget + 1 ∧ onward layout store cursor
        = yields layout store ⟨target, firstRecord, cursor.liveSize, budget, false⟩ := by
  unfold onward
  rcases hnext : Chain.next layout store cursor.block with e | target
  · exact .inl rfl
  · dsimp only
    by_cases hzero : target = 0
    · rw [if_pos hzero]
      exact .inl rfl
    · rw [if_neg hzero]
      rcases hbudget : cursor.budget with _ | budget
      · exact .inl rfl
      · exact .inr ⟨target, budget, rfl, hzero, rfl, rfl⟩

/-- A walk that cannot read its block tells so and ends. -/
theorem yields_read_error {e : Error} (h : Store.read store block layout.blockSize = .error e)
    (liveSize budget offset : Nat) :
    yields layout store ⟨block, offset, liveSize, budget, false⟩
      = ([.error e], ⟨block, offset, liveSize, budget, true⟩) := by
  refine yields_error ?_
  rw [next, if_neg Bool.false_ne_true]
  unfold nextFrom
  rw [h]

/-- The nodes among the things that a walk brings. -/
@[simp] theorem filterMap_map_ok (nodes : List Node) :
    (nodes.map .ok : List (Except Error Node)).filterMap Except.toOption = nodes := by
  rw [List.filterMap_map]
  exact List.filterMap_some

/-- Where blocks have no bytes there are no entries to be found. -/
theorem pos_of_nextFrom {moved : Cursor} {offset : Nat} {node : Node}
    (h : nextFrom layout store liveSize budget block offset = (moved, some (.ok node))) :
    0 < layout.blockSize := by
  fun_induction nextFrom layout store liveSize budget block offset with
  | case2 budget block offset bytes hread found record length hlive =>
    have hbounds := firstLive_bounds hlive
    have hsize := Store.size_read hread
    omega
  | case6 => rename_i ih; exact ih h
  | _ => cases h

theorem pos_of_yields {cursor last : Cursor} {nodes : List Node} (hne : nodes ≠ [])
    (h : cursor.yields layout store = (nodes.map .ok, last)) : 0 < layout.blockSize := by
  obtain ⟨node, rest, rfl⟩ := List.exists_cons_of_ne_nil hne
  rcases hstep : cursor.next layout store with ⟨moved, _ | item⟩
  · rw [yields_none hstep] at h
    cases h
  · rw [yields_some hstep, List.map_cons] at h
    obtain rfl : item = .ok node := (List.cons.inj (Prod.mk.inj h).1).1
    rw [next] at hstep
    split at hstep
    · cases hstep
    · exact pos_of_nextFrom hstep

section Walk

variable [Ended σ]

/-- A walk brings the entries of the block it comes to and goes on behind the link. -/
theorem yields_turn (hpos : 0 < layout.blockSize) (hread : block + layout.blockSize ≤ reach store)
    (liveSize budget : Nat) :
    ∃ rest last, onward layout store ⟨block, vacantIn layout (held store) block firstRecord,
        liveSize + extent (nodesFrom layout (held store) block firstRecord), budget, false⟩
          = (rest, last) ∧
      yields layout store ⟨block, firstRecord, liveSize, budget, false⟩
        = ((nodesFrom layout (held store) block firstRecord).map .ok ++ rest, last) := by
  obtain ⟨rest, last, hrest, hyields⟩ := yields_block hpos hread liveSize budget firstRecord
  refine ⟨rest, last, ?_, hyields⟩
  have hstep := next_vacantIn hpos hread
    (liveSize + extent (nodesFrom layout (held store) block firstRecord)) budget firstRecord
  rw [← hrest, onward]
  dsimp only
  rcases hnext : Chain.next layout store block with e | target
  · rw [hnext] at hstep
    exact (yields_error hstep).symm
  · rw [hnext] at hstep
    dsimp only at hstep ⊢
    by_cases hzero : target = 0
    · rw [if_pos hzero] at hstep ⊢
      exact (yields_none hstep).symm
    · rw [if_neg hzero] at hstep ⊢
      cases budget with
      | zero => exact (yields_error hstep).symm
      | succ budget => exact (yields_congr hstep).symm

/-- A link that can be read is followed if it leads to the data region or nowhere. -/
theorem next_of_target {target : Nat} (hreach : block + Layout.linkSize ≤ reach store)
    (htarget : Chain.target layout (held store) block = target)
    (h : target = 0 ∨ layout.InData target) : Chain.next layout store block = .ok target := by
  subst htarget
  rcases Chain.next_cases layout store block with ⟨-, -, hnext⟩ | ⟨-, hne, hout, -⟩ | ⟨hpast, -⟩
  · exact hnext
  · exact absurd h (not_or.mpr ⟨hne, hout⟩)
  · omega

/-- The block that a link leads to is the next one that links lead to. -/
theorem route_of_next {target : Nat} (h : Chain.next layout store block = .ok target)
    (hne : target ≠ 0) (budget : Nat) :
    route layout (held store) (budget + 1) block
      = block :: route layout (held store) budget target := by
  rcases Chain.next_cases layout store block with
    ⟨-, hinside, hnext⟩ | ⟨-, -, -, hnext⟩ | ⟨-, fault, hnext⟩
  · obtain rfl := Except.ok.inj (h.symm.trans hnext)
    rw [route, if_pos (hinside.resolve_left hne)]
  · rw [h] at hnext
    cases hnext
  · rw [h] at hnext
    cases hnext

theorem mem_route_start (layout : Layout) (m : Content) (budget block : Nat) :
    block ∈ route layout m budget block := by
  obtain ⟨rest, hroute⟩ := exists_route layout m budget block
  rw [hroute]
  exact List.mem_cons_self

/-- What a walk brings are the entries of the first blocks that links lead to, up to one that cannot
be read. -/
theorem exists_blocks (hpos : 0 < layout.blockSize) (store : σ) (budget block liveSize : Nat) :
    ∃ blocks, blocks <+: route layout (held store) budget block ∧
      (∀ a ∈ blocks, a + layout.blockSize ≤ reach store) ∧
      (yields layout store ⟨block, firstRecord, liveSize, budget, false⟩).1.filterMap
        Except.toOption = entries layout (held store) blocks := by
  induction budget using Nat.strong_induction_on generalizing block liveSize with
  | _ budget ih =>
    by_cases hread : block + layout.blockSize ≤ reach store
    · obtain ⟨rest, last, honward, hyields⟩ := yields_turn hpos hread liveSize budget
      rw [hyields]
      dsimp only
      rw [List.filterMap_append, filterMap_map_ok]
      rcases onward_cases layout store ⟨block, vacantIn layout (held store) block firstRecord,
          liveSize + extent (nodesFrom layout (held store) block firstRecord), budget, false⟩ with
        hnone | ⟨target, budget', hnext, hne, hbudget, hgoes⟩
      · rw [honward] at hnone
        obtain ⟨more, hroute⟩ := exists_route layout (held store) budget block
        refine ⟨[block], ⟨more, hroute.symm⟩, by simpa using hread, ?_⟩
        rw [hnone, entries_cons, entries_nil]
      · dsimp only at hnext hbudget hgoes
        subst hbudget
        rw [honward] at hgoes
        obtain ⟨blocks, hfront, hwithin, hentries⟩ := ih budget' (Nat.lt_succ_self _) target
          (liveSize + extent (nodesFrom layout (held store) block firstRecord))
        rw [← hgoes] at hentries
        refine ⟨block :: blocks, ?_, List.forall_mem_cons.mpr ⟨hread, hwithin⟩, ?_⟩
        · rw [route_of_next hnext hne]
          exact (List.prefix_cons_inj block).mpr hfront
        · rw [hentries, entries_cons]
    · obtain ⟨fault, herror⟩ : ∃ fault,
          Store.read store block layout.blockSize = .error (.io fault) :=
        read_past hpos (Nat.lt_of_not_le hread)
      refine ⟨[], List.nil_prefix, by simp, ?_⟩
      rw [yields_read_error herror]
      rfl

/-- The nodes of a walk without a failure are the entries of the first blocks of the chain. -/
theorem entries_of_walk {address : Nat} {nodes : List Node} {last : Cursor} (hne : nodes ≠ [])
    (h : (start layout address).yields layout store = (nodes.map .ok, last)) :
    ∃ blocks, blocks <+: route layout (held store) layout.bitmapBits address ∧
      (∀ a ∈ blocks, a + layout.blockSize ≤ reach store) ∧
      nodes = entries layout (held store) blocks := by
  obtain ⟨blocks, hfront, hwithin, hentries⟩ :=
    exists_blocks (pos_of_yields hne h) store layout.bitmapBits address 0
  change ((start layout address).yields layout store).1.filterMap Except.toOption = _ at hentries
  rw [h, filterMap_map_ok] at hentries
  exact ⟨blocks, hfront, hwithin, hentries⟩

end Walk

/-! ## Walks on two stores -/

/-- What a walk brings, with each entry changed, and where it ends. -/
def recast (f : Node → Node) (result : List (Except Error Node) × Cursor) :
    List (Except Error Node) × Cursor :=
  (result.1.map (Except.map f), result.2)

theorem recast_ok (nodes : List Node) (last : Cursor) :
    recast f (nodes.map .ok, last) = ((nodes.map f).map .ok, last) := by
  rw [recast, List.map_map, List.map_map]
  rfl

theorem recast_id (result : List (Except Error Node) × Cursor) : recast id result = result := by
  have hid : (Except.map id : Except Error Node → Except Error Node) = id := by
    funext item
    cases item <;> rfl
  rw [recast, hid, List.map_id]

theorem onward_recast {cursor : Cursor}
    (hnext : Chain.next layout after cursor.block = Chain.next layout store cursor.block)
    (hrest : ∀ target budget, Chain.next layout store cursor.block = .ok target → target ≠ 0 →
      cursor.budget = budget + 1 →
      yields layout after ⟨target, firstRecord, cursor.liveSize, budget, false⟩
        = recast f (yields layout store ⟨target, firstRecord, cursor.liveSize, budget, false⟩)) :
    onward layout after cursor = recast f (onward layout store cursor) := by
  rw [onward, hnext, onward]
  rcases htarget : Chain.next layout store cursor.block with e | target
  · rfl
  · dsimp only
    by_cases hzero : target = 0
    · rw [if_pos hzero, if_pos hzero]
      rfl
    · rw [if_neg hzero, if_neg hzero]
      rcases hbudget : cursor.budget with _ | budget
      · rfl
      · exact hrest target budget htarget hzero hbudget

section Recast

variable [Ended σ]

/-- What a walk finds in a block of one store and of another: it can be read in neither of them, or
it has the same entries, up to a change of each for itself, and the same link. -/
inductive Recast (layout : Layout) (f : Node → Node) (store after : σ) (a : Nat) : Prop
  | unreadable {e : Error} (error_eq : Store.read store a layout.blockSize = .error e)
      (error_eq' : Store.read after a layout.blockSize = .error e)
  | readable (inReach : a + layout.blockSize ≤ reach store)
      (inReach' : a + layout.blockSize ≤ reach after)
      (nodes_eq : nodesFrom layout (held after) a firstRecord
        = (nodesFrom layout (held store) a firstRecord).map f)
      (vacant_eq : vacantIn layout (held after) a firstRecord
        = vacantIn layout (held store) a firstRecord)
      (next_eq : Chain.next layout after a = Chain.next layout store a)

/-- Such a block, and what the walk brings in the blocks behind it. -/
theorem yields_recast_turn (hpos : 0 < layout.blockSize)
    (hsize : ∀ node, (f node).record.encodedSize = node.record.encodedSize)
    (h : Recast layout f store after block)
    (hrest : ∀ target rest liveSize, Chain.next layout store block = .ok target → target ≠ 0 →
      budget = rest + 1 → yields layout after ⟨target, firstRecord, liveSize, rest, false⟩
        = recast f (yields layout store ⟨target, firstRecord, liveSize, rest, false⟩)) :
    yields layout after ⟨block, firstRecord, liveSize, budget, false⟩
      = recast f (yields layout store ⟨block, firstRecord, liveSize, budget, false⟩) := by
  cases h with
  | unreadable herror herror' =>
    rw [yields_read_error herror', yields_read_error herror]
    rfl
  | readable hreach hreach' hnodes hvacant hnext =>
    obtain ⟨rest, last, honward, hyields⟩ := yields_turn hpos hreach liveSize budget
    obtain ⟨rest', last', honward', hyields'⟩ := yields_turn hpos hreach' liveSize budget
    have hextent : extent ((nodesFrom layout (held store) block firstRecord).map f)
        = extent (nodesFrom layout (held store) block firstRecord) := by
      rw [extent, List.map_map, extent]
      exact congrArg List.sum (List.map_congr_left fun node _ => hsize node)
    rw [hvacant, hnodes, hextent, onward_recast hnext fun target rest => hrest target rest _,
      honward] at honward'
    obtain ⟨rfl, rfl⟩ := Prod.mk.inj honward'
    rw [hyields', hyields, hnodes, recast, List.map_append, List.map_map, List.map_map]
    rfl

/-- **Walks on two stores.** If the blocks that a walk comes to hold the same entries in another
store, up to a change of each entry for itself that leaves its record as long as it is, the walk
brings there what it brings here, changed in this way, and ends at the same place. -/
theorem yields_recast (hpos : 0 < layout.blockSize)
    (hsize : ∀ node, (f node).record.encodedSize = node.record.encodedSize)
    (h : ∀ a ∈ route layout (held store) budget block, Recast layout f store after a)
    (liveSize : Nat) :
    yields layout after ⟨block, firstRecord, liveSize, budget, false⟩
      = recast f (yields layout store ⟨block, firstRecord, liveSize, budget, false⟩) := by
  induction budget generalizing block liveSize with
  | zero =>
    refine yields_recast_turn hpos hsize (h block (mem_route_start ..)) ?_
    intro target rest liveSize _ _ hbudget
    omega
  | succ budget ih =>
    refine yields_recast_turn hpos hsize (h block (mem_route_start ..)) ?_
    intro target rest liveSize hnext hne hbudget
    obtain rfl : budget = rest := Nat.succ.inj hbudget
    rw [route_of_next hnext hne] at h
    exact ih (fun a ha => h a (List.mem_cons_of_mem _ ha)) liveSize

end Recast

end Cursor

end ChainFs
