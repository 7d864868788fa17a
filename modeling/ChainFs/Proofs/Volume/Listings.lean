import ChainFs.Proofs.Volume.Interrupted

/-!
# Listings in the course of time

A listing is told piece by piece while calls go on changing the volume, so what matters is what they
do to the entries that were told already.

* `Volume.shown` — the names and kinds of a listing, in their order;
* `Volume.list_orderly` — the names are different, and valid;
* `Volume.Call.runAll_list` — whatever calls do, a directory goes on showing what it showed, in the
  same places, and new entries come behind.

This is the one thing a listing in several parts can rely on. It is shown for calls, by the relation
that all edits of a volume stand in, and serving adds nothing to it.
-/

namespace ChainFs.Volume

open Store Directory

/-- What a listing shows of its entries: their names and kinds. -/
def shown (nodes : Array Node) : List (String × Kind) :=
  nodes.toList.map fun node => (node.record.name, node.record.kind)

theorem namesOf_eq (nodes : Array Node) : namesOf nodes = (shown nodes).map Prod.fst := by
  rw [shown, List.map_map]
  rfl

section Faithful

variable {σ : Type} [Store σ] [Faithful σ] {layout : Layout} {store store' : σ}
  {branches branches' : Branches} {path : String} {nodes nodes' : Array Node}

/-- The names of a directory are different and valid. -/
theorem list_orderly (regular : layout.Regular) (hsize : layout.endAddress ≤ Store.size store)
    (mapped : Mapped layout (content store) branches) (h : list layout store path = .ok nodes) :
    (namesOf nodes).Nodup ∧ ∀ name ∈ namesOf nodes, validateName name = .ok () := by
  obtain ⟨branch, hbranch, hkind, rfl⟩ := exists_branch_of_list regular hsize mapped h
  have horderly := mapped.orderly hbranch hkind
  refine ⟨horderly.nodup, fun name hname => ?_⟩
  obtain ⟨node, hnode, rfl⟩ := List.mem_map.mp hname
  exact horderly.valid node hnode

/-- The kind of an entry is that of the branch below its name. -/
theorem exists_branch_of_entry (regular : layout.Regular)
    (hsize : layout.endAddress ≤ Store.size store)
    (mapped : Mapped layout (content store) branches) (h : list layout store path = .ok nodes)
    {node : Node} (hnode : node ∈ nodes.toList) :
    ∃ child, branches (Path.components path ++ [node.record.name]) = some child ∧
      child.node.record.kind = node.record.kind := by
  obtain ⟨branch, hbranch, hkind, rfl⟩ := exists_branch_of_list regular hsize mapped h
  obtain ⟨child, hchild, rfl⟩ := mapped.exists_child hbranch hkind hnode
  exact ⟨child, hchild, rfl⟩

/-- What a directory shows, it goes on showing in the same place. -/
theorem shown_of_evolved (regular : layout.Regular) (hsize : layout.endAddress ≤ Store.size store)
    (hsize' : layout.endAddress ≤ Store.size store')
    (mapped : Mapped layout (content store) branches) {target news : List String}
    {taken : List Nat} {counted : Nat}
    (evolved : Evolved layout (content store) branches target news taken counted (content store')
      branches')
    (h : list layout store path = .ok nodes) :
    ∃ nodes', list layout store' path = .ok nodes' ∧ shown nodes <+: shown nodes' := by
  obtain ⟨nodes', h', hnames⟩ := list_of_evolved regular hsize hsize' mapped evolved h
  have hprefix : namesOf nodes <+: namesOf nodes' := by
    rcases hnames with heq | ⟨-, heq⟩
    · rw [heq]
    · rw [heq]
      exact List.prefix_append ..
  refine ⟨nodes', h', List.prefix_iff_getElem.mpr ⟨?_, fun i hi => ?_⟩⟩
  · simpa only [namesOf, shown, List.length_map] using hprefix.length_le
  · simp only [shown, List.length_map] at hi
    have hle := hprefix.length_le
    simp only [namesOf, List.length_map] at hle
    have hname : nodes.toList[i].record.name = nodes'.toList[i].record.name := by
      simpa only [namesOf, List.getElem_map] using hprefix.getElem (by simpa [namesOf] using hi)
    -- the names lead to the same branch before and after, and a branch keeps its kind
    obtain ⟨child, hchild, hkind⟩ :=
      exists_branch_of_entry regular hsize mapped h (List.getElem_mem hi)
    obtain ⟨child', hchild', hkind'⟩ :=
      exists_branch_of_entry regular hsize' evolved.mapped h' (List.getElem_mem (hi.trans_le hle))
    obtain ⟨kept, hkept, hkeeps⟩ := evolved.keeps hchild
    rw [← hname, hkept] at hchild'
    obtain rfl := Option.some.inj hchild'
    simp only [shown, List.getElem_map, hname, ← hkind, ← hkind', hkeeps.kind_eq]

end Faithful

variable {τ : Type} [Store τ] [Reliable τ] {layout : Layout} {blockSize : UInt32} {store : τ}
  {branches : Branches} {path : String} {nodes : Array Node}

/-- Calls leave a volume in order in which a directory shows what it showed, and new entries behind
that. -/
theorem Call.runAll_list (calls : List (UInt64 × Call))
    (sound : Sound layout blockSize (Store.size store) (content store) branches)
    (h : Volume.list layout store path = .ok nodes) :
    ∃ branches' nodes', Sound layout blockSize (Store.size (Call.runAll layout calls store).2)
        (content (Call.runAll layout calls store).2) branches' ∧
      Volume.list layout (Call.runAll layout calls store).2 path = .ok nodes' ∧
      shown nodes <+: shown nodes' := by
  induction calls generalizing store branches nodes with
  | nil => exact ⟨branches, nodes, sound, h, List.prefix_rfl⟩
  | cons timed rest ih =>
    obtain ⟨now, call⟩ := timed
    obtain ⟨hsize, hsettled⟩ := (Call.run_ends sound now call).outcome rfl rfl
    obtain ⟨news, taken, branches', evolved, -⟩ := hsettled.evolved
    have sound' := sound.of_evolved evolved
    rw [← hsize] at sound'
    obtain ⟨nodes', h', hprefix⟩ :=
      shown_of_evolved sound.regular sound.fits sound'.fits sound.mapped evolved h
    obtain ⟨branches'', nodes'', sound'', h'', hprefix'⟩ := ih sound' h'
    rw [Call.runAll_cons]
    exact ⟨branches'', nodes'', sound'', h'', hprefix.trans hprefix'⟩

end ChainFs.Volume
