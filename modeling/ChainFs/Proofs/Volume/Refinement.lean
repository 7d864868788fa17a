import ChainFs.Proofs.Tree
import ChainFs.Proofs.Volume.Space

/-!
# A volume as a tree

The relation between a volume and a tree is stated node by node: the branch that names lead to looks
like the node that the same names lead to, as far as its kind, its mtime, and its bytes or the names
of its children go. Answers are compared without addresses, which a tree does not have; everything
else, including the cause of a failure, is the same. Space that runs out is the only way for a call
to leave the comparison.

* `Volume.Depicts` — the branches of a content are the nodes of a tree, and the recorded sizes are
  right;
* `Volume.Call.run_answers` — a call answers as it does on the tree and changes the content as it
  changes the tree, or space runs out;
* `Volume.runAll_refines_tree` — so does every run of calls on a new volume in which space does not
  run out.
-/

namespace ChainFs.Volume

open Store Bitmap Chain Directory

variable {layout : Layout} {m m' : Content} {size : Nat} {blockSize : UInt32}
  {branches branches' : Branches} {names : List String} {branch branch' : Branch} {tree : Tree}

/-! ## What is seen -/

/-- A node without its addresses. -/
def seen (node : Node) : Seen :=
  ⟨node.record.kind, node.record.size.toNat, node.record.mtime, node.record.name⟩

/-- A reply without addresses. -/
def Reply.shown : Reply → Answer
  | .found node? => .found (node?.map seen)
  | .stat answer => .stat answer
  | .listing nodes => .listing (nodes.toList.map seen)
  | .content bytes => .content bytes
  | .written count => .written count
  | .created node => .created (seen node)
  | .usage _ => .usage

/-- A branch without what lies below it: the names of a directory, or the bytes of a file. -/
def Branch.top (layout : Layout) (m : Content) (branch : Branch) : Top :=
  if branch.node.isDirectory then
    .directory (entryNames layout m branch.chain) branch.node.record.mtime
  else .file ((payload layout m branch.chain).window 0 branch.node.record.size.toNat)
    branch.node.record.mtime

theorem Branch.kind_top (layout : Layout) (m : Content) (branch : Branch) :
    (branch.top layout m).kind = branch.node.record.kind := by
  rcases branch with ⟨⟨⟨_ | _, address, size, mtime, name⟩, recordAddress⟩, chain⟩ <;> rfl

theorem Branch.mtime_top (layout : Layout) (m : Content) (branch : Branch) :
    (branch.top layout m).mtime = branch.node.record.mtime := by
  rcases branch with ⟨⟨⟨_ | _, address, size, mtime, name⟩, recordAddress⟩, chain⟩ <;> rfl

theorem Branch.size_top (layout : Layout) (m : Content) (branch : Branch) :
    (branch.top layout m).size = if branch.node.isDirectory then
      extent (entries layout m branch.chain) else branch.node.record.size.toNat := by
  unfold Branch.top
  split
  · rw [extent_eq]
    rfl
  · rw [Top.size, Content.size_window]

theorem Branch.mtime_stamp (branch : Branch) (size : UInt32) (mtime : UInt64) :
    (branch.stamp size mtime).node.record.mtime
      = if branch.node.recordAddress = none then branch.node.record.mtime else mtime := by
  unfold Branch.stamp
  split <;> rfl

theorem Alike.top_eq (alike : Alike layout m m' branch) :
    branch.top layout m' = branch.top layout m := by
  unfold Alike at alike
  unfold Branch.top
  split at alike <;> simp_all

/-- A branch is the node of a tree that the names lead to. All of a file has a place in its chain,
and the size in a directory's record is right. -/
structure Shows (layout : Layout) (m : Content) (names : List String) (branch : Branch)
    (tree : Tree) : Prop where
  found : (tree.find names).map Tree.top = some (branch.top layout m)
  fits : ¬ branch.node.isDirectory →
    branch.node.record.size.toNat ≤ capacity layout branch.chain
  recorded : names ≠ [] → branch.node.isDirectory →
    branch.node.record.size.toNat = extent (entries layout m branch.chain)

/-- What is alike in two contents shows the same. -/
theorem Shows.of_alike (shows : Shows layout m names branch tree) (alike : Alike layout m m' branch)
    {tree' : Tree} (h : (tree'.find names).map Tree.top = (tree.find names).map Tree.top) :
    Shows layout m' names branch tree' where
  found := by rw [h, shows.found, alike.top_eq]
  fits := shows.fits
  recorded hnames hkind := by
    rw [Alike, if_pos hkind, entryNames, entryNames] at alike
    rw [extent_eq, alike, ← extent_eq, shows.recorded hnames hkind]

namespace Mapped

variable (mapped : Mapped layout m branches)
include mapped

/-- The last name of a path is that of its node; the root has an empty one. -/
theorem getLastD_eq (h : branches names = some branch) :
    names.getLastD "" = branch.node.record.name := by
  by_cases hroot : names = []
  · subst hroot
    rw [mapped.node_root h]
    rfl
  · obtain ⟨front, name, parent, rfl, -, -, -, rfl⟩ := mapped.exists_parent h hroot
    simp

/-- A directory that lists one more name, and whose record says so, shows one more child. -/
theorem shows_grown {now : UInt64} {name : String} {kind : Kind} {children : List (String × Tree)}
    {added : List Nat} (h : branches names = some branch) (hkind : branch.node.isDirectory)
    (hnode : tree.find names = some (.directory children branch.node.record.mtime))
    (hnames : children.map Prod.fst = entryNames layout m branch.chain)
    (hlisting : entryNames layout m' (branch.chain ++ added)
      = entryNames layout m branch.chain ++ [name])
    (hlarge : grownExtent layout m branch name < 2 ^ 32) :
    Shows layout m' names
      ((Branch.extend added ∘ Branch.stamp (UInt32.ofNat (grownExtent layout m branch name)) now)
        branch)
      (tree.update (fun _ => .directory (children ++ [(name, Tree.fresh now kind)])
        (if names = [] then branch.node.record.mtime else now)) names) := by
  have hkind' : ((Branch.extend added ∘ Branch.stamp
      (UInt32.ofNat (grownExtent layout m branch name)) now) branch).node.isDirectory := by
    rw [Function.comp_apply, Branch.node_extend, (Branch.Keeps.stamp ..).isDirectory_eq, hkind]
  refine ⟨?_, fun hfile => absurd hkind' hfile, fun hroot _ => ?_⟩
  · rw [Tree.find_replace_self hnode, Branch.top, if_pos hkind', Function.comp_apply,
      Branch.chain_extend, Branch.chain_stamp, hlisting, Branch.node_extend, Option.map_some,
      Tree.top, List.map_append, hnames, Branch.mtime_stamp,
      ite_cond_congr (propext (mapped.eq_nil_iff h))]
    rfl
  · obtain ⟨x, hx⟩ := mapped.exists_record h hroot
    rw [Function.comp_apply, Branch.chain_extend, Branch.chain_stamp, Branch.node_extend,
      Branch.stamp_of_record hx, extent_eq, ← entryNames, hlisting, List.map_append,
      List.sum_append, entryNames, ← extent_eq]
    exact UInt32.toNat_ofNat_of_lt' hlarge

end Mapped

/-- A new entry with no entries of its own shows a fresh child of its directory. -/
theorem Shows.of_fresh {now mtime mtime' : UInt64} {name : String} {kind : Kind}
    {children : List (String × Tree)} {b place : Nat}
    (hnode : tree.find names = some (.directory children mtime))
    (hnew : name ∉ children.map Prod.fst)
    (hentries : kind = .directory → entries layout m' [b] = []) :
    Shows layout m' (names ++ [name]) ⟨⟨⟨kind, b, 0, now, name⟩, some place⟩, [b]⟩
      (tree.update (fun _ => .directory (children ++ [(name, Tree.fresh now kind)]) mtime')
        names) := by
  refine ⟨?_, fun _ => Nat.zero_le _, fun _ hkind => ?_⟩
  · rw [Tree.find_add hnode hnew]
    cases kind with
    | directory =>
      rw [Branch.top, if_pos (by rfl), entryNames, hentries rfl]
      rfl
    | file => rfl
  · rw [hentries (of_decide_eq_true hkind)]
    rfl

/-- The branches of a content are the nodes of a tree. -/
structure Depicts (layout : Layout) (m : Content) (branches : Branches) (tree : Tree) : Prop where
  absent : ∀ {names}, branches names = none → tree.find names = none
  shows : ∀ {names branch}, branches names = some branch → Shows layout m names branch tree

namespace Depicts

variable (depicts : Depicts layout m branches tree)
include depicts

theorem find_some (h : branches names = some branch) :
    ∃ node, tree.find names = some node ∧ node.top = branch.top layout m :=
  Option.map_eq_some_iff.mp (depicts.shows h).found

theorem find_directory (h : branches names = some branch) (hkind : branch.node.isDirectory) :
    ∃ children, tree.find names = some (.directory children branch.node.record.mtime) ∧
      children.map Prod.fst = entryNames layout m branch.chain := by
  obtain ⟨node, hnode, htop⟩ := depicts.find_some h
  rw [Branch.top, if_pos hkind] at htop
  cases node with
  | file content mtime => cases htop
  | directory children mtime =>
    obtain ⟨hnames, rfl⟩ := Top.directory.inj htop
    exact ⟨children, hnode, hnames⟩

theorem find_file (h : branches names = some branch) (hkind : ¬ branch.node.isDirectory) :
    tree.find names = some (.file ((payload layout m branch.chain).window 0
      branch.node.record.size.toNat) branch.node.record.mtime) := by
  obtain ⟨node, hnode, htop⟩ := depicts.find_some h
  rw [Branch.top, if_neg hkind] at htop
  cases node with
  | file content mtime =>
    obtain ⟨rfl, rfl⟩ := Top.file.inj htop
    exact hnode
  | directory children mtime => cases htop

theorem resolve_none {path : String} (h : branches (Path.components path) = none) :
    tree.resolve path = .error (.notFound path) := by
  rw [Tree.resolve, depicts.absent h]

theorem resolve_directory {path : String} (h : branches (Path.components path) = some branch)
    (hkind : branch.node.isDirectory) :
    ∃ children, tree.resolve path = .ok (.directory children branch.node.record.mtime) ∧
      tree.find (Path.components path) = some (.directory children branch.node.record.mtime) ∧
      children.map Prod.fst = entryNames layout m branch.chain := by
  obtain ⟨children, hnode, hnames⟩ := depicts.find_directory h hkind
  exact ⟨children, by rw [Tree.resolve, hnode], hnode, hnames⟩

theorem resolve_file {path : String} (h : branches (Path.components path) = some branch)
    (hkind : ¬ branch.node.isDirectory) :
    tree.resolve path = .ok (.file ((payload layout m branch.chain).window 0
      branch.node.record.size.toNat) branch.node.record.mtime) := by
  rw [Tree.resolve, depicts.find_file h hkind]

/-- An edit makes a tree of a tree if it does so at the branch it works on and at new ones. -/
theorem of_evolved {target news : List String} {taken : List Nat} {counted : Nat}
    (evolved : Evolved layout m branches target news taken counted m' branches') {tree' : Tree}
    (htarget : ∃ branch, branches' target = some branch ∧ Shows layout m' target branch tree')
    (hnews : ∀ name ∈ news, ∃ branch, branches' (target ++ [name]) = some branch ∧
      Shows layout m' (target ++ [name]) branch tree')
    (hother : ∀ names, names ≠ target → (∀ name ∈ news, names ≠ target ++ [name]) →
      (tree'.find names).map Tree.top = (tree.find names).map Tree.top) :
    Depicts layout m' branches' tree' where
  absent {names} h := by
    have hnone : branches names = none := by
      rcases hbranch : branches names with _ | branch
      · rfl
      · obtain ⟨branch', hbranch', -⟩ := evolved.keeps hbranch
        rw [h] at hbranch'
        cases hbranch'
    have hne : names ≠ target := by
      rintro rfl
      obtain ⟨branch, hbranch, -⟩ := htarget
      rw [h] at hbranch
      cases hbranch
    have hnew : ∀ name ∈ news, names ≠ target ++ [name] := by
      rintro name hname rfl
      obtain ⟨branch, hbranch, -⟩ := hnews name hname
      rw [h] at hbranch
      cases hbranch
    have htop := hother names hne hnew
    rw [depicts.absent hnone] at htop
    exact Option.map_eq_none_iff.mp htop
  shows {names branch'} h := by
    by_cases hne : names = target
    · subst hne
      obtain ⟨branch, hbranch, hshows⟩ := htarget
      obtain rfl := Option.some.inj (h.symm.trans hbranch)
      exact hshows
    by_cases hnew : ∃ name ∈ news, names = target ++ [name]
    · obtain ⟨name, hname, rfl⟩ := hnew
      obtain ⟨branch, hbranch, hshows⟩ := hnews name hname
      obtain rfl := Option.some.inj (h.symm.trans hbranch)
      exact hshows
    · rcases hbranch : branches names with _ | branch
      · exact absurd (evolved.created hbranch h) hnew
      · obtain ⟨hbranch', halike⟩ := evolved.other hne hbranch
        obtain rfl := Option.some.inj (h.symm.trans hbranch')
        refine (depicts.shows hbranch).of_alike halike (hother names hne ?_)
        exact fun name hname heq => hnew ⟨name, hname, heq⟩

variable (mapped : Mapped layout m branches)
include mapped

/-- A branch is seen as its node in the tree. -/
theorem seen_eq (h : branches names = some branch) {node : Tree}
    (hnode : tree.find names = some node) :
    node.seen names = seen branch.node := by
  obtain ⟨node', hnode', htop⟩ := depicts.find_some h
  obtain rfl := Option.some.inj (hnode.symm.trans hnode')
  have hsize : (if names = [] then 0 else node.top.size) = branch.node.record.size.toNat := by
    by_cases hroot : names = []
    · subst hroot
      rw [mapped.node_root h]
      rfl
    · rw [if_neg hroot, htop, Branch.size_top]
      split
      · rename_i hkind
        exact ((depicts.shows h).recorded hroot hkind).symm
      · rfl
  rw [Tree.seen, seen, htop, Branch.kind_top, Branch.mtime_top, ← htop, hsize,
    mapped.getLastD_eq h]

/-- What a lookup adds up for the root and reads for the others is the size of the node. -/
theorem size_eq (h : branches names = some branch) :
    (if branch.node.recordAddress = none then extent (entries layout m branch.chain)
      else branch.node.record.size.toNat) = (branch.top layout m).size := by
  rw [Branch.size_top]
  by_cases hroot : names = []
  · subst hroot
    rw [mapped.node_root h]
    rfl
  · obtain ⟨x, hx⟩ := mapped.exists_record h hroot
    rw [if_neg (by simp [hx])]
    split
    · rename_i hkind
      exact (depicts.shows h).recorded hroot hkind
    · rfl

/-- A path leads to the same in the tree. -/
theorem scan_eq (names : List String) :
    ((branches names).map Branch.node).map seen = (tree.find names).map (Tree.seen names) := by
  rcases h : branches names with _ | branch
  · rw [depicts.absent h]
    rfl
  · obtain ⟨node, hnode, -⟩ := depicts.find_some h
    rw [hnode, Option.map_some, Option.map_some, Option.map_some, depicts.seen_eq mapped h hnode]

/-- A directory lists its children, in the same order. -/
theorem listing_eq (h : branches names = some branch) (hkind : branch.node.isDirectory)
    {children : List (String × Tree)} {mtime : UInt64}
    (hnode : tree.find names = some (.directory children mtime))
    (hnames : children.map Prod.fst = entryNames layout m branch.chain) :
    (entries layout m branch.chain).map seen
      = children.map fun child => Tree.seen [child.1] child.2 := by
  -- both lists follow from the names, as both sides are found under them
  have hentries : ∀ entry ∈ entries layout m branch.chain,
      (tree.find (names ++ [entry.record.name])).map (Tree.seen [entry.record.name])
        = some (seen entry) := by
    intro entry hentry
    obtain ⟨child, hchild, rfl⟩ := mapped.exists_child h hkind hentry
    obtain ⟨node, hnode', -⟩ := depicts.find_some hchild
    have hseen := depicts.seen_eq mapped hchild hnode'
    rw [hnode', Option.map_some, ← hseen]
    simp [Tree.seen]
  have hchildren : ∀ child ∈ children,
      (tree.find (names ++ [child.1])).map (Tree.seen [child.1])
        = some (Tree.seen [child.1] child.2) := by
    intro child hchild
    have hnodup : (children.map Prod.fst).Nodup := hnames ▸ (mapped.orderly h hkind).nodup
    rw [Tree.find_append, hnode, Option.bind_some, Tree.find, Tree.child?_eq_some hnodup hchild]
    rfl
  have hmap := congrArg (List.map fun name =>
    (tree.find (names ++ [name])).map (Tree.seen [name])) hnames
  rw [entryNames, List.map_map, List.map_map] at hmap
  refine List.map_injective_iff.mpr (Option.some_injective Seen) ?_
  rw [List.map_map, List.map_map]
  exact (List.map_congr_left hentries).symm.trans
    (hmap.symm.trans (List.map_congr_left hchildren))

end Depicts

/-! ## Calls -/

/-- A call came to the same as on the tree, and the content holds the tree behind it. -/
structure Answered (layout : Layout) (blockSize : UInt32) (size : Nat) (tree : Tree)
    (result : Except Error (Answer × Tree)) (r : Except Error Reply) (m' : Content) : Prop where
  answer : r.map Reply.shown = result.map Prod.fst
  state : ∃ branches', Sound layout blockSize size m' branches' ∧
    Depicts layout m' branches' (tree.after result)

section Step

variable {τ : Type} [Store τ] [Reliable τ] {result : Except Error (Answer × Tree)}

theorem Answered.done {answer : Answer} {tree' : Tree} {reply : Reply} {r : Except Error Reply}
    (hresult : result = .ok (answer, tree')) (hr : r = .ok reply) (hreply : reply.shown = answer)
    (sound : Sound layout blockSize size m' branches')
    (depicts : Depicts layout m' branches' tree') :
    Answered layout blockSize size tree result r m' where
  answer := by
    rw [hresult, hr, ← hreply]
    rfl
  state := by
    rw [hresult]
    exact ⟨branches', sound, depicts⟩

variable (sound : Sound layout blockSize size m branches) (depicts : Depicts layout m branches tree)
include sound depicts

theorem Answered.refused {e : Error} (hresult : result = .error e) {r : Except Error Reply}
    (hr : r = .error e) : Answered layout blockSize size tree result r m where
  answer := by
    rw [hresult, hr]
    rfl
  state := by
    rw [hresult]
    exact ⟨branches, sound, depicts⟩

theorem scan_answers (now : UInt64) (path : String) :
    ((Call.scan path).run layout now : Edit τ Reply).Ends size m
      (Answered layout blockSize size tree (tree.perform now (.scan path))) := by
  refine .map (.ask ?_)
  rintro store rfl rfl
  rw [Volume.scan_eq sound.regular sound.fits sound.mapped]
  refine .done rfl rfl ?_ sound depicts
  rw [Reply.shown, depicts.scan_eq sound.mapped]

theorem lookup_answers (now : UInt64) (path : String) :
    ((Call.lookup path).run layout now : Edit τ Reply).Ends size m
      (Answered layout blockSize size tree (tree.perform now (.lookup path))) := by
  refine .map (.ask ?_)
  rintro store rfl rfl
  rcases h : branches (Path.components path) with _ | branch
  · rw [(question_error sound.regular sound.fits sound.mapped h).1]
    refine .refused sound depicts ?_ rfl
    rw [Tree.perform, depicts.resolve_none h]
    rfl
  · obtain ⟨node, hnode, htop⟩ := depicts.find_some h
    rw [lookup_eq sound.regular sound.fits sound.mapped h]
    refine .done ?_ rfl rfl sound depicts
    rw [Tree.perform, Tree.resolve, hnode]
    rw [depicts.size_eq sound.mapped h, ← Branch.kind_top layout, ← Branch.mtime_top layout, ← htop]
    rfl

theorem list_answers (now : UInt64) (path : String) :
    ((Call.list path).run layout now : Edit τ Reply).Ends size m
      (Answered layout blockSize size tree (tree.perform now (.list path))) := by
  refine .map (.ask ?_)
  rintro store rfl rfl
  rcases h : branches (Path.components path) with _ | branch
  · rw [(question_error sound.regular sound.fits sound.mapped h).2.1]
    refine .refused sound depicts ?_ rfl
    rw [Tree.perform, depicts.resolve_none h]
    rfl
  · rw [list_eq sound.regular sound.fits sound.mapped h]
    by_cases hkind : branch.node.isDirectory
    · obtain ⟨children, hresolve, hnode, hnames⟩ := depicts.resolve_directory h hkind
      rw [if_pos hkind]
      have hlisting := depicts.listing_eq sound.mapped h hkind hnode hnames
      refine .done ?_ rfl (congrArg Answer.listing hlisting) sound depicts
      rw [Tree.perform, hresolve]
      rfl
    · rw [if_neg hkind]
      refine .refused sound depicts ?_ rfl
      rw [Tree.perform, depicts.resolve_file h hkind]
      rfl

theorem read_answers (now : UInt64) (path : String) (offset length : Nat) :
    ((Call.read path offset length).run layout now : Edit τ Reply).Ends size m
      (Answered layout blockSize size tree (tree.perform now (.read path offset length))) := by
  refine .map (.ask ?_)
  rintro store rfl rfl
  rcases h : branches (Path.components path) with _ | branch
  · rw [(question_error sound.regular sound.fits sound.mapped h).2.2]
    refine .refused sound depicts ?_ rfl
    rw [Tree.perform, depicts.resolve_none h]
    rfl
  · rw [Volume.read_eq sound.regular sound.fits sound.mapped h]
    by_cases hkind : branch.node.isDirectory
    · obtain ⟨children, hresolve, -⟩ := depicts.resolve_directory h hkind
      rw [if_pos hkind]
      refine .refused sound depicts ?_ rfl
      rw [Tree.perform, hresolve]
      rfl
    · have hfits := (depicts.shows h).fits hkind
      rw [if_neg hkind]
      refine .done ?_ rfl rfl sound depicts
      rw [Tree.perform, depicts.resolve_file h hkind]
      simp only [bind, Except.bind]
      rw [Content.extract_window, Nat.zero_add, Nat.min_eq_left (a := min _ _) (by omega)]
      rfl

omit sound in
/-- A write is refused by the tree for the same reason. -/
theorem tree_write_refused (now : UInt64) {path : String} {offset : Nat} {data : ByteArray}
    {e : Error} (h : writeRefusal branches path offset data.size = some e) :
    tree.write now path offset data = .error e := by
  rw [Tree.write]
  rcases writeRefusal_cases h with
    ⟨hnone, rfl⟩ | ⟨branch, hbranch, ⟨hkind, rfl⟩ | ⟨hkind, hdata, herror⟩⟩
  · rw [depicts.resolve_none hnone]
    rfl
  · obtain ⟨children, hresolve, -⟩ := depicts.resolve_directory hbranch hkind
    rw [hresolve]
    rfl
  · obtain ⟨hlarge, rfl⟩ := of_grownSize_error herror
    rw [depicts.resolve_file hbranch hkind]
    simp only [bind, Except.bind]
    rw [if_neg hdata, Content.size_window, max_comm, if_pos hlarge]

/-- A file that was written to shows the data laid over its content. -/
theorem write_depicts {now : UInt64} {path : String} {offset : Nat} {data : ByteArray}
    (h : branches (Path.components path) = some branch) (hkind : ¬ branch.node.isDirectory)
    {newSize : UInt32}
    (hnewSize : newSize.toNat = max (offset + data.size) branch.node.record.size.toNat)
    {added taken : List Nat} {counted : Nat}
    (extended : Extended layout m branches (Path.components path) newSize now added taken counted
      m')
    (hpayload : payload layout m' (branch.chain ++ added)
      = (payload layout m branch.chain).put offset data)
    (hroom : offset + data.size ≤ capacity layout (branch.chain ++ added)) :
    Depicts layout m' (branches.modify (Path.components path)
        (Branch.extend added ∘ Branch.stamp newSize now))
      (tree.update (fun _ => .file (Tree.overlaid ((payload layout m branch.chain).window 0
        branch.node.record.size.toNat) offset data) now) (Path.components path)) := by
  have hfile := depicts.find_file h hkind
  have hroot := sound.mapped.ne_nil_of_file h hkind
  obtain ⟨x, hx⟩ := sound.mapped.exists_record h hroot
  refine depicts.of_evolved extended ⟨_, Branches.modify_self h, ?_⟩ (by simp) fun names hne _ =>
    Tree.top_find_write hfile hne
  rw [Function.comp_apply, Branch.stamp_of_record hx]
  refine ⟨?_, fun _ => ?_, fun _ hdirectory => absurd hdirectory hkind⟩
  · rw [Tree.find_replace_self hfile, Tree.overlaid_window (sound.mapped.zero h hkind), max_comm,
      ← hnewSize, ← hpayload]
    exact congrArg some (if_neg hkind).symm
  · have hfits := (depicts.shows h).fits hkind
    have hle : capacity layout branch.chain ≤ capacity layout (branch.chain ++ added) := by
      rw [capacity, capacity, List.length_append]
      exact Nat.mul_le_mul_right _ (Nat.le_add_right ..)
    simp only [Branch.chain_extend, Branch.node_extend]
    omega

theorem write_answers (now : UInt64) (path : String) (offset : Nat) (data : ByteArray) :
    ((Call.write path offset data).run layout now : Edit τ Reply).Ends size m fun r m' =>
      r = .error .outOfSpace ∨
        Answered layout blockSize size tree (tree.perform now (.write path offset data)) r m' := by
  refine .map ?_
  rcases hrefusal : writeRefusal branches path offset data.size with _ | e
  · obtain ⟨branch, h, hkind, hlength⟩ := of_writeRefusal hrefusal
    have hresolve := depicts.resolve_file h hkind
    by_cases hdata : data.size = 0
    · refine (write_empty sound.regular sound.fits sound.mapped now h hkind hdata).mono ?_
      rintro r m' ⟨rfl, rfl⟩
      refine .inr (.done ?_ rfl rfl sound depicts)
      rw [Tree.perform, Tree.write, hresolve]
      exact if_pos hdata
    · obtain ⟨newSize, hnewSize⟩ := hlength.resolve_left hdata
      have htoNat := toNat_grownSize hnewSize
      have hlt := newSize.toNat_lt
      have hpos : 0 < data.size := Nat.pos_of_ne_zero hdata
      refine (write_ends sound.regular sound.fits sound.mapped h hkind now hpos hnewSize).mono ?_
      rintro r m' (⟨added, rfl, hevolved, hpayload, hroom, -⟩ | ⟨added, rfl, -⟩ | ⟨e, -, he, -⟩)
      · have hdepicts := write_depicts sound depicts h hkind htoNat hevolved hpayload hroom
        refine .inr (.done ?_ rfl rfl (sound.of_evolved hevolved) hdepicts)
        rw [Tree.perform, Tree.write, hresolve]
        simp only [bind, Except.bind]
        rw [if_neg hdata, Content.size_window, if_neg (by omega)]
        rfl
      · exact .inl rfl
      · exact absurd he (Reliable.not_fault e)
  · refine (write_refused sound.regular sound.fits sound.mapped now hrefusal).mono ?_
    rintro r m' ⟨rfl, rfl⟩
    exact .inr (.refused sound depicts (tree_write_refused depicts now hrefusal) rfl)

omit sound depicts in
theorem size_add_eq {children : List (String × Tree)} {mtime : UInt64}
    (hnames : children.map Prod.fst = entryNames layout m branch.chain) (name : String) :
    (Tree.directory children mtime).top.size + (18 + name.utf8ByteSize)
      = grownExtent layout m branch name := by
  rw [Tree.top, Top.size, hnames, entryNames, grownExtent, ← extent_eq]
  rfl

/-- The creation of an entry is refused by the tree for the same reason. -/
theorem tree_create_refused (now : UInt64) {path name : String} (kind : Kind) {e : Error}
    (h : createRefusal layout m branches path name = some e) :
    tree.create now path name kind = .error e := by
  rw [Tree.create]
  rcases createRefusal_cases h with ⟨hnone, rfl⟩ | ⟨branch, hbranch, hcheck | ⟨hcheck, hcases⟩⟩
  · rw [depicts.resolve_none hnone]
    rfl
  · rcases checkNew_cases hcheck with hvalid | ⟨hvalid, hkind, rfl⟩
    · obtain ⟨node, hnode, -⟩ := depicts.find_some hbranch
      rw [Tree.resolve, hnode]
      simp only [bind, Except.bind, hvalid]
    · rw [depicts.resolve_file hbranch hkind]
      simp only [bind, Except.bind, hvalid]
      rw [sound.mapped.getLastD_eq hbranch]
  · obtain ⟨hvalid, hkind⟩ := of_checkNew hcheck
    obtain ⟨children, hresolve, -, hnames⟩ := depicts.resolve_directory hbranch hkind
    rw [hresolve]
    simp only [bind, Except.bind, hvalid]
    rw [size_add_eq hnames, hnames]
    rcases hcases with ⟨hold, rfl⟩ | ⟨hnew, hlarge, rfl⟩
    · rw [if_pos hold]
    · rw [if_neg hnew, if_pos hlarge]

/-- A directory with a new entry shows it behind its children. -/
theorem create_depicts {now : UInt64} {path name : String} {kind : Kind}
    {children : List (String × Tree)} (h : branches (Path.components path) = some branch)
    (hkind : branch.node.isDirectory)
    (hnode : tree.find (Path.components path)
      = some (.directory children branch.node.record.mtime))
    (hnames : children.map Prod.fst = entryNames layout m branch.chain)
    (hnew : name ∉ entryNames layout m branch.chain)
    (hlarge : grownExtent layout m branch name < 2 ^ 32) {b place : Nat} {added taken : List Nat}
    {counted : Nat}
    (evolved : Evolved layout m branches (Path.components path) [name] taken counted m'
      (Function.update (branches.modify (Path.components path) (Branch.extend added ∘
        Branch.stamp (UInt32.ofNat (grownExtent layout m branch name)) now))
        (Path.components path ++ [name])
        (some ⟨⟨⟨kind, b, 0, now, name⟩, some place⟩, [b]⟩))) :
    Depicts layout m'
      (Function.update (branches.modify (Path.components path) (Branch.extend added ∘
        Branch.stamp (UInt32.ofNat (grownExtent layout m branch name)) now))
        (Path.components path ++ [name])
        (some ⟨⟨⟨kind, b, 0, now, name⟩, some place⟩, [b]⟩))
      (tree.update (fun _ => .directory (children ++ [(name, Tree.fresh now kind)])
        (if Path.components path = [] then branch.node.record.mtime else now))
        (Path.components path)) := by
  have hnone := sound.mapped.none_of_new h hnew
  have hnew' : name ∉ children.map Prod.fst := hnames ▸ hnew
  have hself : ∀ change, Function.update (branches.modify (Path.components path) change)
      (Path.components path ++ [name]) (some ⟨⟨⟨kind, b, 0, now, name⟩, some place⟩, [b]⟩)
        (Path.components path) = some (change branch) := fun change => by
    rw [Function.update_of_ne (by simp), Branches.modify_self h]
  refine depicts.of_evolved evolved ⟨_, hself _, ?_⟩ ?_ fun names hne hnames => ?_
  · have hlisting := evolved.listing h (hself _) hkind
    rw [Function.comp_apply, Branch.chain_extend, Branch.chain_stamp] at hlisting
    exact sound.mapped.shows_grown h hkind hnode hnames hlisting hlarge
  · intro name' hname'
    obtain rfl := List.mem_singleton.mp hname'
    refine ⟨_, Function.update_self .., .of_fresh hnode hnew' fun hdirectory => ?_⟩
    -- no name leads on from the new entry
    refine evolved.mapped.entries_eq_nil (Function.update_self ..) ?_ fun next => ?_
    · exact decide_eq_true hdirectory
    · rw [Function.update_of_ne (by simp), Branches.modify_none (sound.mapped.none_of_none hnone _)]
  · exact Tree.top_find_add hnode hnew' kind now _ hne (hnames name (List.mem_singleton_self name))

theorem create_answers (now : UInt64) (path name : String) (kind : Kind) :
    (create layout now path name kind : Edit τ Node).Ends size m fun r m' =>
      r = .error .outOfSpace ∨
        Answered layout blockSize size tree (tree.create now path name kind) (r.map .created)
          m' := by
  rcases hrefusal : createRefusal layout m branches path name with _ | e
  · obtain ⟨branch, h, hcheck, hnew, hlarge⟩ := of_createRefusal hrefusal
    obtain ⟨hvalid, hkind⟩ := of_checkNew hcheck
    obtain ⟨children, hresolve, hnode, hnames⟩ := depicts.resolve_directory h hkind
    refine (create_ends sound.regular sound.fits sound.mapped h now kind hcheck hnew hlarge).mono ?_
    rintro r m' (⟨b, place, added, rfl, hevolved, -⟩ | ⟨taken, rfl, -⟩ | ⟨e, -, he, -⟩)
    · have hdepicts := create_depicts sound depicts h hkind hnode hnames hnew hlarge hevolved
      refine .inr (.done ?_ rfl rfl (sound.of_evolved hevolved) hdepicts)
      rw [Tree.create, hresolve]
      simp only [bind, Except.bind]
      rw [hvalid, hnames]
      dsimp only
      rw [if_neg hnew, size_add_eq hnames, if_neg (Nat.not_le.mpr hlarge)]
      rfl
    · exact .inl rfl
    · exact absurd he (Reliable.not_fault e)
  · refine (create_refused sound.regular sound.fits sound.mapped now kind hrefusal).mono ?_
    rintro r m' ⟨rfl, rfl⟩
    exact .inr (.refused sound depicts (tree_create_refused sound depicts now kind hrefusal) rfl)

theorem createAt_answers (now : UInt64) (path : String) (kind : Kind) :
    (createAt layout now path kind : Edit τ Node).Ends size m fun r m' =>
      r = .error .outOfSpace ∨ Answered layout blockSize size tree (do
        let (parent, name) ← Path.splitLast path
        tree.create now parent name kind) (r.map .created) m' := by
  rcases hsplit : Path.splitLast path with e | ⟨parent, name⟩
  · exact .ofExcept_bind_error hsplit (.inr (.refused sound depicts rfl rfl))
  · exact .ofExcept_bind hsplit (create_answers sound depicts now parent name kind)

omit sound depicts in
/-- A call that creates an entry. -/
theorem created_answers {act : Edit τ Node} (h : act.Ends size m fun r m' =>
      r = .error .outOfSpace ∨ Answered layout blockSize size tree result (r.map .created) m') :
    (Reply.created <$> act).Ends size m fun r m' =>
      r = .error .outOfSpace ∨ Answered layout blockSize size tree result r m' := by
  refine .map (h.mono ?_)
  rintro r m' (rfl | hanswered)
  · exact .inl rfl
  · exact .inr hanswered

/-- A call answers as it does on the tree and makes of the content what it makes of the tree, unless
space runs out. -/
theorem Call.run_answers (now : UInt64) (call : Call) :
    (call.run layout now : Edit τ Reply).Ends size m fun r m' =>
      r = .error .outOfSpace ∨
        Answered layout blockSize size tree (tree.perform now call) r m' := by
  cases call with
  | scan path => exact (scan_answers sound depicts now path).mono fun _ _ => .inr
  | lookup path => exact (lookup_answers sound depicts now path).mono fun _ _ => .inr
  | list path => exact (list_answers sound depicts now path).mono fun _ _ => .inr
  | read path offset length =>
    exact (read_answers sound depicts now path offset length).mono fun _ _ => .inr
  | write path offset data => exact write_answers sound depicts now path offset data
  | create parent name kind =>
    exact created_answers (create_answers sound depicts now parent name kind)
  | makeDirectory path => exact created_answers (createAt_answers sound depicts now path .directory)
  | createFile path => exact created_answers (createAt_answers sound depicts now path .file)
  | usage =>
    refine .map (.ask ?_)
    rintro store rfl rfl
    rw [sound.sealed.usage_eq sound.regular sound.fits]
    exact .inr (.done rfl rfl rfl sound depicts)

end Step

/-! ## Runs -/

/-- A new volume is an empty tree. -/
theorem Formatted.depicts (formatted : Formatted layout blockSize size m) :
    Depicts layout m (rootOnly layout) Tree.empty where
  absent {names} h := by
    cases names with
    | nil => cases h
    | cons name rest => rfl
  shows {names branch} h := by
    have hentries : entries layout m [layout.dataAddress] = [] := by
      have hroot : rootOnly layout [] = some ⟨Node.root layout, [layout.dataAddress]⟩ := rfl
      refine formatted.mapped.entries_eq_nil hroot rfl fun name => ?_
      rw [rootOnly, if_neg (by simp)]
    unfold rootOnly at h
    split at h
    · rename_i hnames
      obtain rfl := hnames
      obtain rfl := Option.some.inj h
      refine ⟨?_, fun hfile => absurd rfl hfile, fun hroot => absurd rfl hroot⟩
      rw [Branch.top, if_pos (by rfl), entryNames, hentries]
      rfl
    · cases h

section Reliable

variable {τ : Type} [Store τ] [Reliable τ] {store : τ}

/-- As long as space does not run out, a run of calls answers as on the tree. -/
theorem Call.runAll_answers (calls : List (UInt64 × Call))
    (sound : Sound layout blockSize (Store.size store) (content store) branches)
    (depicts : Depicts layout (content store) branches tree)
    (hspace : .error .outOfSpace ∉ (Call.runAll layout calls store).1) :
    (Call.runAll layout calls store).1.map (·.map Reply.shown) = tree.runAll calls := by
  induction calls generalizing store branches tree with
  | nil => rfl
  | cons timed rest ih =>
    obtain ⟨now, call⟩ := timed
    rw [Call.runAll_cons] at hspace ⊢
    obtain ⟨hhead, htail⟩ := not_or.mp (mt List.mem_cons.mpr hspace)
    obtain ⟨hsize, hend⟩ := (Call.run_answers sound depicts now call).outcome rfl rfl
    obtain ⟨hanswer, branches', sound', depicts'⟩ := hend.resolve_left (Ne.symm hhead)
    rw [← hsize] at sound'
    rw [List.map_cons, hanswer, ih sound' depicts' htail, Tree.runAll]

/-- A volume is a tree of named byte strings: after formatting, every run of calls in which space
does not run out answers as it does on an empty tree. -/
theorem runAll_refines_tree {blank formatted : τ}
    (hformat : format blockSize blank = .ok layout formatted) (calls : List (UInt64 × Call))
    (hspace : .error .outOfSpace ∉ (Call.runAll layout calls formatted).1) :
    (Call.runAll layout calls formatted).1.map (·.map Reply.shown) = Tree.empty.runAll calls := by
  obtain ⟨hsize, hformatted⟩ := formatted_of_ok hformat
  have sound := hformatted.sound
  rw [← hsize] at sound
  exact Call.runAll_answers calls sound hformatted.depicts hspace

theorem answers_on_blank :
    ∃ volume, format 512 (blank 4195840) = .ok smallest volume ∧
      (Call.runAll smallest
        [(5, .makeDirectory "/d"), (6, .createFile "/d/a"), (7, .write "/d/a" 2 [1].toByteArray),
          (8, .read "d//a" 0 9), (8, .list "/d"), (8, .lookup "/")] volume).1.map
        (·.map Reply.shown)
      = [.ok (.created ⟨.directory, 0, 5, "d"⟩), .ok (.created ⟨.file, 0, 6, "a"⟩),
          .ok (.written 1), .ok (.content [0, 0, 1].toByteArray),
          .ok (.listing [⟨.file, 3, 7, "a"⟩]), .ok (.stat ⟨.directory, 19, 0⟩)] := by
  obtain ⟨volume, hformat⟩ := format_blank
  refine ⟨volume, hformat, (runAll_refines_tree hformat _ ?_).trans rfl⟩
  obtain ⟨hsize, hformatted⟩ := formatted_of_ok hformat
  have sound := hformatted.sound
  rw [← hsize] at sound
  refine Call.runAll_spends _ sound ?_
  rw [hformatted.marked_eq]
  decide

end Reliable

end ChainFs.Volume
