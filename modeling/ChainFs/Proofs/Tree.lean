import ChainFs.Proofs.Content
import ChainFs.Volume.Call
import Mathlib.Data.List.Nodup

/-!
# Trees of named byte strings

What a volume stands for, without blocks, records or addresses: directories with the names of their
children in order, and files with their bytes.

A tree carries out the same calls and has the same refusals, in the same order. It has nothing that
could run out and nothing that could be damaged. Where calls of a volume change bytes at several
places, a tree changes a node; that the other nodes stay is shown here, by induction on the names
that lead to the node, so that a refinement has to look at one node only.

* `Tree.find`, `Tree.update` — the node that names lead to, and the tree with that node changed;
* `Tree.perform` — what a call answers and what it makes of the tree;
* `Tree.runAll` — what a run of calls answers;
* `Tree.top_find_update`, `Tree.top_find_add` — all other nodes are as before.
-/

namespace ChainFs

/-- A file with its bytes, or a directory with its children. -/
inductive Tree
  | file (content : ByteArray) (mtime : UInt64)
  | directory (children : List (String × Tree)) (mtime : UInt64)

/-- A node without what lies below it: of the children of a directory only the names. -/
inductive Top
  | file (content : ByteArray) (mtime : UInt64)
  | directory (names : List String) (mtime : UInt64)

namespace Top

def kind : Top → Kind
  | file .. => .file
  | directory .. => .directory

def mtime : Top → UInt64
  | file _ mtime => mtime
  | directory _ mtime => mtime

/-- A file is as large as its content, a directory takes 18 bytes for each child and its name. -/
def size : Top → Nat
  | file content _ => content.size
  | directory names _ => (names.map fun name => 18 + name.utf8ByteSize).sum

end Top

/-- A node as a scan, a listing or the creation of an entry shows it. -/
structure Seen where
  kind : Kind
  size : Nat
  mtime : UInt64
  name : String
  deriving DecidableEq

/-- What a call answers, without addresses. How full a volume is, is nothing a tree knows. -/
inductive Answer
  | found (seen? : Option Seen)
  | stat (stat : Stat)
  | listing (nodes : List Seen)
  | content (bytes : ByteArray)
  | written (count : Nat)
  | created (seen : Seen)
  | usage

namespace Tree

/-- A tree that holds nothing. -/
def empty : Tree :=
  directory [] 0

/-- A new entry: a file without bytes, or a directory without children. -/
def fresh (mtime : UInt64) : Kind → Tree
  | .file => file .empty mtime
  | .directory => directory [] mtime

def top : Tree → Top
  | file content mtime => .file content mtime
  | directory children mtime => .directory (children.map Prod.fst) mtime

/-! ## Nodes by their names -/

/-- The child of a name, if there is one. -/
def child? (name : String) : Tree → Option Tree
  | file .. => none
  | directory children _ => (children.find? (·.1 = name)).map Prod.snd

/-- Changes the child of a name. -/
def mapChild (name : String) (change : Tree → Tree) : Tree → Tree
  | file content mtime => file content mtime
  | directory children mtime => directory
    (children.map fun child => (child.1, if child.1 = name then change child.2 else child.2)) mtime

/-- The node that names lead to, if they do. -/
def find : List String → Tree → Option Tree
  | [], tree => some tree
  | name :: rest, tree => (tree.child? name).bind (find rest)

/-- Changes the node that names lead to. -/
def update (change : Tree → Tree) : List String → Tree → Tree
  | [], tree => change tree
  | name :: rest, tree => tree.mapChild name (update change rest)

/-- The node that a path leads to. -/
def resolve (tree : Tree) (path : String) : Except Error Tree :=
  match tree.find (Path.components path) with
  | some node => .ok node
  | none => .error (.notFound path)

/-- A node as it is seen under a name. The root has no entry that shows its size. -/
def seen (names : List String) (node : Tree) : Seen :=
  ⟨node.top.kind, if names = [] then 0 else node.top.size, node.top.mtime, names.getLastD ""⟩

/-! ## Calls -/

/-- Content with data laid over it at an offset. It grows to the end of the data, and a gap in
between is filled with zeros. -/
def overlaid (content : ByteArray) (offset : Nat) (data : ByteArray) : ByteArray :=
  (Content.put (Bytes.get content) offset data).window 0 (max content.size (offset + data.size))

/-- Writes data into a file and tells how many bytes were written. -/
def write (tree : Tree) (now : UInt64) (path : String) (offset : Nat) (data : ByteArray) :
    Except Error (Answer × Tree) := do
  match ← tree.resolve path with
  | directory .. => .error (.isDirectory path)
  | file content _ =>
    if data.size = 0 then .ok (.written 0, tree)
    else if 2 ^ 32 ≤ max content.size (offset + data.size) then .error .fileTooLarge
    else .ok (.written data.size,
      tree.update (fun _ => file (overlaid content offset data) now) (Path.components path))

/-- Adds an entry at the end of a directory. Only the root keeps its mtime. -/
def create (tree : Tree) (now : UInt64) (parent name : String) (kind : Kind) :
    Except Error (Answer × Tree) := do
  let node ← tree.resolve parent
  Directory.validateName name
  match node with
  | file .. => .error (.notDirectory ((Path.components parent).getLastD ""))
  | directory children mtime =>
    if name ∈ children.map Prod.fst then .error (.alreadyExists name)
    else if 2 ^ 32 ≤ node.top.size + (18 + name.utf8ByteSize) then .error .fileTooLarge
    else .ok (.created ⟨kind, 0, now, name⟩,
      tree.update (fun _ => directory (children ++ [(name, fresh now kind)])
        (if Path.components parent = [] then mtime else now)) (Path.components parent))

/-- What a call answers, and the tree that it makes. -/
def perform (tree : Tree) (now : UInt64) : Volume.Call → Except Error (Answer × Tree)
  | .scan path =>
    .ok (.found ((tree.find (Path.components path)).map (seen (Path.components path))), tree)
  | .lookup path => do
    let node ← tree.resolve path
    return (.stat ⟨node.top.kind, node.top.size, node.top.mtime⟩, tree)
  | .list path => do
    match ← tree.resolve path with
    | file .. => .error (.notDirectory path)
    | directory children _ =>
      return (.listing (children.map fun child => seen [child.1] child.2), tree)
  | .read path offset length => do
    match ← tree.resolve path with
    | directory .. => .error (.isDirectory path)
    | file content _ => return (.content (content.extract offset (offset + length)), tree)
  | .write path offset data => tree.write now path offset data
  | .create parent name kind => tree.create now parent name kind
  | .makeDirectory path => do
    let (parent, name) ← Path.splitLast path
    tree.create now parent name .directory
  | .createFile path => do
    let (parent, name) ← Path.splitLast path
    tree.create now parent name .file
  | .usage => .ok (.usage, tree)

/-- The tree behind a call that came to `result`. -/
def after (tree : Tree) (result : Except Error (Answer × Tree)) : Tree :=
  match result with
  | .ok (_, tree') => tree'
  | .error _ => tree

/-- Carries out calls in order and collects what each of them answers. -/
def runAll : List (UInt64 × Volume.Call) → Tree → List (Except Error Answer)
  | [], _ => []
  | (now, call) :: rest, tree =>
    (tree.perform now call).map Prod.fst :: runAll rest (tree.after (tree.perform now call))

/-! ## Laid over data -/

@[simp] theorem size_overlaid (content : ByteArray) (offset : Nat) (data : ByteArray) :
    (overlaid content offset data).size = max content.size (offset + data.size) :=
  Content.size_window ..

/-- Inside the data it is the data, in front of it and behind it the content, and elsewhere zero. -/
theorem get_overlaid (content : ByteArray) (offset : Nat) (data : ByteArray) (i : Nat) :
    Bytes.get (overlaid content offset data) i
      = if offset ≤ i ∧ i < offset + data.size then Bytes.get data (i - offset)
        else if i < content.size then Bytes.get content i else 0 := by
  by_cases hi : i < max content.size (offset + data.size)
  · rw [overlaid, Content.get_window _ hi, Nat.zero_add, Content.put]
    split
    · rfl
    · split
      · rfl
      · exact Bytes.get_of_size_le (by omega)
  · rw [Bytes.get_of_size_le (by rw [size_overlaid]; omega), if_neg (by omega), if_neg (by omega)]

/-- Where bytes end that are zero behind their end, data is laid over them all the same. -/
theorem overlaid_window {p : Content} {length offset : Nat} {data : ByteArray}
    (hzero : ∀ i, length ≤ i → p i = 0) :
    overlaid (p.window 0 length) offset data
      = (p.put offset data).window 0 (max length (offset + data.size)) := by
  refine Bytes.ext_get (by simp) fun i hi => ?_
  rw [size_overlaid, Content.size_window] at hi
  rw [get_overlaid, Content.size_window, Content.get_window _ hi, Nat.zero_add, Content.put]
  split
  · rfl
  · split
    · rename_i hlt
      rw [Content.get_window p hlt, Nat.zero_add]
    · exact (hzero i (by omega)).symm

/-! ## Nodes that are found -/

variable {tree node : Tree} {change : Tree → Tree} {name name' : String} {names rest : List String}

theorem find_append (names rest : List String) (tree : Tree) :
    tree.find (names ++ rest) = (tree.find names).bind (find rest) := by
  induction names generalizing tree with
  | nil => rfl
  | cons name names ih =>
    rw [List.cons_append, find, find, Option.bind_assoc]
    exact Option.bind_congr fun child _ => ih child

@[simp] theorem top_mapChild (name : String) (change : Tree → Tree) (tree : Tree) :
    (tree.mapChild name change).top = tree.top := by
  cases tree with
  | file content mtime => rfl
  | directory children mtime => simp [mapChild, top]

theorem child?_mapChild (name name' : String) (change : Tree → Tree) (tree : Tree) :
    (tree.mapChild name change).child? name'
      = (tree.child? name').map fun child => if name' = name then change child else child := by
  cases tree with
  | file content mtime => rfl
  | directory children mtime =>
    -- the names of the children stay, and so the same child is found
    have hsame : (fun child : String × Tree => decide (child.1 = name')) ∘
        (fun child : String × Tree =>
          (child.1, if child.1 = name then change child.2 else child.2))
        = fun child => decide (child.1 = name') := rfl
    rw [mapChild, child?, child?, List.find?_map, hsame]
    rcases hfound : children.find? (·.1 = name') with _ | child
    · rw [hfound]
      rfl
    · have hname : child.1 = name' := by simpa using List.find?_some hfound
      rw [hfound, ← hname]
      rfl

/-- Below a node that was changed all is as the change made it. -/
theorem find_update (change : Tree → Tree) (names rest : List String) (tree : Tree) :
    (tree.update change names).find (names ++ rest)
      = (tree.find names).bind fun node => (change node).find rest := by
  induction names generalizing tree with
  | nil => rfl
  | cons name names ih =>
    rw [List.cons_append, find, update, child?_mapChild, find, Option.bind_assoc, Option.bind_map]
    refine Option.bind_congr fun child _ => ?_
    rw [Function.comp_apply, if_pos rfl, ih]

/-- All nodes that are not below it look as before. -/
theorem top_find_update (change : Tree → Tree) (tree : Tree) (h : ¬ names <+: rest) :
    ((tree.update change names).find rest).map top = (tree.find rest).map top := by
  induction names generalizing tree rest with
  | nil => exact absurd (List.nil_prefix ..) h
  | cons name names ih =>
    cases rest with
    | nil => simp [find, update]
    | cons name' rest =>
      rw [update, find, find, child?_mapChild, Option.bind_map, Option.map_bind, Option.map_bind]
      refine Option.bind_congr fun child _ => ?_
      by_cases hname : name' = name
      · subst hname
        have hrest : ¬ names <+: rest := fun hprefix =>
          h (List.cons_prefix_cons.mpr ⟨rfl, hprefix⟩)
        simpa using ih child hrest
      · simp [hname]

/-- Where another node stands in the place of one, the nodes below it are what they are there. -/
theorem find_replace (h : tree.find names = some node) (node' : Tree) (rest : List String) :
    (tree.update (fun _ => node') names).find (names ++ rest) = node'.find rest := by
  rw [find_update, h, Option.bind_some]

theorem find_replace_self (h : tree.find names = some node) (node' : Tree) :
    (tree.update (fun _ => node') names).find names = some node' := by
  have hfind := find_replace h node' []
  rwa [List.append_nil] at hfind

/-- Nothing else looks different if nothing does below the node. -/
theorem top_find_replace {node' : Tree} (h : tree.find names = some node) (hne : rest ≠ names)
    (hbelow : ∀ name below, rest = names ++ name :: below →
      (node'.find (name :: below)).map top = (node.find (name :: below)).map top) :
    ((tree.update (fun _ => node') names).find rest).map top = (tree.find rest).map top := by
  by_cases hprefix : names <+: rest
  · obtain ⟨below, rfl⟩ := hprefix
    cases below with
    | nil => exact absurd (List.append_nil names) hne
    | cons name below =>
      rw [find_replace h, find_append, h, Option.bind_some, hbelow name below rfl]
  · exact top_find_update _ tree hprefix

/-! ## Files that are written and entries that are added -/

/-- A file with other bytes changes no other node. -/
theorem top_find_write {content content' : ByteArray} {mtime mtime' : UInt64}
    (h : tree.find names = some (file content mtime)) (hne : rest ≠ names) :
    ((tree.update (fun _ => file content' mtime') names).find rest).map top
      = (tree.find rest).map top :=
  top_find_replace h hne fun _ _ _ => rfl

@[simp] theorem child?_fresh (kind : Kind) (mtime : UInt64) (name : String) :
    (fresh mtime kind).child? name = none := by
  cases kind <;> rfl

variable {children : List (String × Tree)} {mtime : UInt64}

theorem child?_eq_none :
    (directory children mtime).child? name = none ↔ name ∉ children.map Prod.fst := by
  rw [child?, Option.map_eq_none_iff, List.find?_eq_none, List.mem_map]
  constructor
  · rintro h ⟨child, hchild, rfl⟩
    exact h child hchild (by simp)
  · rintro h child hchild hname
    exact h ⟨child, hchild, by simpa using hname⟩

theorem child?_add (child : Tree) (mtime mtime' : UInt64) (name name' : String) :
    (directory (children ++ [(name, child)]) mtime').child? name'
      = ((directory children mtime).child? name').or
        (if name' = name then some child else none) := by
  rw [child?, child?, List.find?_append, Option.map_or]
  by_cases hname : name' = name
  · simp [hname]
  · simp [hname, Ne.symm hname]

/-- The new entry of a directory is found under its name. -/
theorem find_add (h : tree.find names = some (directory children mtime))
    (hnew : name ∉ children.map Prod.fst) (child : Tree) (mtime' : UInt64) :
    (tree.update (fun _ => directory (children ++ [(name, child)]) mtime') names).find
      (names ++ [name]) = some child := by
  rw [find_replace h, find, child?_add _ mtime, child?_eq_none.mpr hnew, if_pos rfl]
  rfl

/-- A new entry changes no node but its directory. -/
theorem top_find_add (h : tree.find names = some (directory children mtime))
    (hnew : name ∉ children.map Prod.fst) (kind : Kind) (now mtime' : UInt64) (hne : rest ≠ names)
    (hne' : rest ≠ names ++ [name]) :
    ((tree.update (fun _ => directory (children ++ [(name, fresh now kind)]) mtime') names).find
      rest).map top = (tree.find rest).map top := by
  refine top_find_replace h hne fun name' below hrest => ?_
  rw [find, find, child?_add _ mtime]
  by_cases hname : name' = name
  · subst hname
    rw [child?_eq_none.mpr hnew, if_pos rfl, Option.none_or, Option.bind_some]
    cases below with
    | nil => exact absurd hrest hne'
    | cons next below => rw [find, child?_fresh, Option.bind_none, Option.bind_none]
  · rw [if_neg hname, Option.or_none]

/-- Every child of a directory is found, if no two have the same name. -/
theorem child?_eq_some (hnodup : (children.map Prod.fst).Nodup) {child : String × Tree}
    (hchild : child ∈ children) : (directory children mtime).child? child.1 = some child.2 := by
  rcases hfound : children.find? (·.1 = child.1) with _ | found
  · exact absurd (List.find?_eq_none.mp hfound child hchild) (by simp)
  · have hname : found.1 = child.1 := by simpa using List.find?_some hfound
    rw [child?, hfound, List.inj_on_of_nodup_map hnodup (List.mem_of_find?_eq_some hfound) hchild
      hname]
    rfl

end Tree

end ChainFs
