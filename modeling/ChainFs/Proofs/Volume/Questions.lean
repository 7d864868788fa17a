import ChainFs.Proofs.Chain.Read
import ChainFs.Proofs.Volume.Branches

/-!
# Questions asked of a volume

On a volume that holds branches no question fails but for its path, and the answers are read off the
branches: `Volume.scan_eq`, `Volume.lookup_eq`, `Volume.list_eq` and `Volume.read_eq`. What fails is
a refusal, `Error.Refusal`.

The answers are equations, with the failures among them. A later statement about what is asked of a
volume rewrites with them and goes on with the branches; the functions that walk through directories
and chains do not come up again.
-/

namespace ChainFs

/-- The failures that speak of a request, not of the volume. -/
def Error.Refusal : Error → Prop
  | .notFound _ | .notDirectory _ | .isDirectory _ | .alreadyExists _ | .invalidName _
  | .nameTooLong _ | .fileTooLarge => True
  | _ => False

namespace Volume

open Store Bitmap Chain Directory

variable {σ : Type} [Store σ] [Faithful σ] {layout : Layout} {store : σ} {branches : Branches}
  {names : List String} {branch : Branch}
variable (regular : layout.Regular) (hsize : layout.endAddress ≤ Store.size store)
  (mapped : Mapped layout (content store) branches)
include regular hsize mapped

/-- Names lead where the branches say. -/
theorem descend_eq (h : branches names = some branch) (rest : List String) :
    descend layout store branch.node rest = .ok ((branches (names ++ rest)).map Branch.node) := by
  induction rest generalizing names branch with
  | nil =>
    rw [List.append_nil, h]
    rfl
  | cons name rest ih =>
    have hchild := mapped.child names name
    rw [h, Option.bind_some, Branch.children] at hchild
    rw [List.append_cons, descend]
    by_cases hdirectory : branch.node.isDirectory = true
    · rw [if_pos hdirectory] at hchild
      rw [hdirectory, if_neg (by decide),
        find_eq regular hsize (mapped.intact h) (mapped.first h), ← hchild]
      rcases hnext : branches (names ++ [name]) with _ | next
      · rw [mapped.none_of_none hnext]
        rfl
      · exact ih hnext
    · rw [if_neg hdirectory] at hchild
      have hnone : branches (names ++ [name]) = none := Option.map_eq_none_iff.mp hchild
      rw [if_pos (by simpa using hdirectory), mapped.none_of_none hnone]
      rfl

/-- A path leads to the node of its branch, or nowhere. -/
theorem scan_eq (path : String) :
    scan layout store path = .ok ((branches (Path.components path)).map Branch.node) := by
  obtain ⟨chain, hroot⟩ := mapped.root
  exact descend_eq regular hsize mapped hroot (Path.components path)

theorem resolve_eq {path : String} (h : branches (Path.components path) = some branch) :
    resolve layout store path = .ok branch.node := by
  rw [resolve, scan_eq regular hsize mapped, h]
  rfl

/-- A path that has no branch is not found. -/
theorem resolve_error {path : String} (h : branches (Path.components path) = none) :
    resolve layout store path = .error (.notFound path) := by
  rw [resolve, scan_eq regular hsize mapped, h]
  rfl

/-- The size of a node with a record is the recorded one, and the root's is added up. -/
theorem nodeSize_eq (h : branches names = some branch) :
    nodeSize layout store branch.node = .ok (if branch.node.recordAddress = none
      then extent (entries layout (content store) branch.chain)
      else branch.node.record.size.toNat) := by
  unfold nodeSize
  split
  · rename_i hnone
    rw [if_pos hnone]
    exact liveSize_eq regular hsize (mapped.intact h) (mapped.first h)
  · rename_i address hsome
    rw [if_neg (by rw [hsome]; exact Option.some_ne_none _)]

/-- A lookup tells the kind and the mtime of the record, and the size of it but for the root, whose
entries are added up. -/
theorem lookup_eq {path : String} (h : branches (Path.components path) = some branch) :
    lookup layout store path = .ok ⟨branch.node.record.kind,
      if branch.node.recordAddress = none then extent (entries layout (content store) branch.chain)
      else branch.node.record.size.toNat, branch.node.record.mtime⟩ := by
  rw [lookup, resolve_eq regular hsize mapped h]
  simp only [bind, Except.bind]
  rw [nodeSize_eq regular hsize mapped h]
  rfl

/-- A path that leads nowhere is not found. -/
theorem question_error {path : String} (h : branches (Path.components path) = none) :
    lookup layout store path = .error (.notFound path) ∧
      list layout store path = .error (.notFound path) ∧
      ∀ offset length, read layout store path offset length = .error (.notFound path) := by
  have hresolve := resolve_error regular hsize mapped h
  refine ⟨?_, ?_, fun offset length => ?_⟩
  · rw [lookup, hresolve]
    rfl
  · rw [list, hresolve]
    rfl
  · rw [read, hresolve]
    rfl

/-- A listing brings the entries of a directory in their order. -/
theorem list_eq {path : String} (h : branches (Path.components path) = some branch) :
    list layout store path = if branch.node.isDirectory
      then .ok (entries layout (content store) branch.chain).toArray
      else .error (.notDirectory path) := by
  rw [list, resolve_eq regular hsize mapped h]
  by_cases hdirectory : branch.node.isDirectory = true
  · rw [if_pos hdirectory, ← nodes_eq regular hsize (mapped.intact h) (mapped.first h)]
    simp only [bind, Except.bind, hdirectory]
    rfl
  · rw [if_neg hdirectory]
    simp only [bind, Except.bind, hdirectory]
    rfl

/-- A read brings the bytes of a file up to its recorded size. -/
theorem read_eq {path : String} (h : branches (Path.components path) = some branch)
    (offset length : Nat) :
    read layout store path offset length = if branch.node.isDirectory
      then .error (.isDirectory path)
      else .ok ((payload layout (content store) branch.chain).window offset
        (min (min (offset + length) branch.node.record.size.toNat)
          (capacity layout branch.chain) - offset)) := by
  rw [read, resolve_eq regular hsize mapped h]
  by_cases hdirectory : branch.node.isDirectory = true
  · rw [if_pos hdirectory]
    simp only [bind, Except.bind, hdirectory]
    rfl
  · rw [if_neg hdirectory, ← readRange_eq regular hsize (mapped.intact h) (mapped.first h)]
    simp only [bind, Except.bind, hdirectory]
    rfl

/-- A listing is that of a directory. -/
theorem exists_branch_of_list {path : String} {nodes : Array Node}
    (h : list layout store path = .ok nodes) :
    ∃ branch, branches (Path.components path) = some branch ∧ branch.node.isDirectory ∧
      nodes = (entries layout (content store) branch.chain).toArray := by
  rcases hbranch : branches (Path.components path) with _ | branch
  · rw [(question_error regular hsize mapped hbranch).2.1] at h
    cases h
  · rw [list_eq regular hsize mapped hbranch] at h
    split at h
    · rename_i hkind
      exact ⟨branch, rfl, hkind, (Except.ok.inj h).symm⟩
    · cases h

/-! ## Failures -/

/-- A failing lookup is a refusal. -/
theorem lookup_error {path : String} {e : Error} (h : lookup layout store path = .error e) :
    e.Refusal := by
  rcases hbranch : branches (Path.components path) with _ | branch
  · rw [(question_error regular hsize mapped hbranch).1] at h
    cases h
    trivial
  · rw [lookup_eq regular hsize mapped hbranch] at h
    cases h

theorem list_error {path : String} {e : Error} (h : list layout store path = .error e) :
    e.Refusal := by
  rcases hbranch : branches (Path.components path) with _ | branch
  · rw [(question_error regular hsize mapped hbranch).2.1] at h
    cases h
    trivial
  · rw [list_eq regular hsize mapped hbranch] at h
    split at h
    · cases h
    · cases h
      trivial

theorem read_error {path : String} {offset length : Nat} {e : Error}
    (h : read layout store path offset length = .error e) : e.Refusal := by
  rcases hbranch : branches (Path.components path) with _ | branch
  · rw [(question_error regular hsize mapped hbranch).2.2] at h
    cases h
    trivial
  · rw [read_eq regular hsize mapped hbranch] at h
    split at h
    · cases h
      trivial
    · cases h

end Volume

end ChainFs
