import ChainFs.Proofs.Mount.Serving

/-!
# What requests are answered

The kernel asks for nodes by number and by name and is told numbers. Which path a request is about
is settled by the table as it stands before the request; the number that is told has to stand for
this very path in the table as it stands afterwards, and the path has to lead to a node of the told
kind.

* `Mount.Request.subject?` — the path that a request is about;
* `Mount.StandsFor` — attributes are told with the number of a path;
* `Mount.attributesAt_leads`, `Mount.entries_leads` — the numbers that are told of paths and
  listings stand for their branches;
* `Mount.Truthful` — so do all numbers of a reply;
* `Mount.reply_leads` — this holds of every request, and the state stays charted.

The two sides of a reply are looked at apart: that the path leads to a node of the told kind, which
the volume says, and that the number stands for this path, which the table says. Only a path that
leads somewhere is given a number.
-/

namespace ChainFs.Mount

open Store
open Volume (Branch Branches)

variable {τ : Type} [Store τ] [Reliable τ] {layout : Layout} {blockSize : UInt32}
  {times : List UInt64} {state : State τ} {branches : Branches}

/-- What a lookup of the volume tells is the kind of the branch. -/
theorem exists_branch_of_lookup (charted : Charted layout blockSize times state branches)
    {names : List String} (hplain : ∀ name ∈ names, Path.Plain name) {stat : Stat}
    (h : Volume.lookup layout state.store (Path.absolute names) = .ok stat) :
    ∃ branch, branches names = some branch ∧ branch.node.record.kind = stat.kind ∧
      branch.node.record.mtime = stat.mtime := by
  obtain ⟨⟨regular, hfits, -, -⟩, mapped⟩ := charted.sound
  have hnames := Path.components_absolute hplain
  rcases hbranch : branches (Path.components (Path.absolute names)) with _ | branch
  · rw [(Volume.question_error regular hfits mapped hbranch).1] at h
    cases h
  · rw [Volume.lookup_eq regular hfits mapped hbranch] at h
    obtain rfl := Except.ok.inj h
    exact ⟨branch, hnames ▸ hbranch, rfl, rfl⟩

theorem kind_of_isDirectory {node : Node} (h : node.isDirectory) : node.record.kind = .directory :=
  of_decide_eq_true h

/-- What a listing shows: the directory itself, its parent, and its children. -/
def Listing (inode : Nat) (entries : List DirectoryEntry) (state : State τ) (branches : Branches) :
    Prop :=
  ∃ names parent children, entries = ⟨inode, .directory, "."⟩ :: ⟨parent, .directory, ".."⟩ ::
      children ∧
    Points state branches inode names .directory ∧
    Points state branches parent names.dropLast .directory ∧
    ∀ entry ∈ children, Points state branches entry.inode (names ++ [entry.name]) entry.kind

/-- The path of a child that a request names. -/
def childPath? (inodes : Inodes) (parent : Nat) (name : ByteArray) : Option String := do
  let directory ← inodes.path? parent
  let name ← String.fromUTF8? name
  return Path.child directory name

theorem childPath?_eq {inodes : Inodes} {parent : Nat} {name : ByteArray} {directory text : String}
    (hdirectory : inodes.path? parent = some directory) (htext : decodeName name = .ok text) :
    childPath? inodes parent name = some (Path.child directory text) := by
  rw [childPath?, hdirectory, ← toUTF8_of_decodeName htext, Slot.fromUTF8?_toUTF8]
  rfl

/-- The path of the node whose attributes a request asks for, as the numbers stand before it. -/
def Request.subject? (inodes : Inodes) : Request → Option String
  | .getAttributes inode | .setAttributes inode _ => inodes.path? inode
  | .lookup parent name | .makeDirectory parent name | .createFile parent name =>
    childPath? inodes parent name
  | _ => none

/-- Attributes are told with the number of this path, and with the kind of the branch there. -/
def StandsFor (path? : Option String) (attributes : Attributes) (state : State τ)
    (branches : Branches) : Prop :=
  ∃ names, path? = some (Path.absolute names) ∧
    Points state branches attributes.inode names attributes.kind

section Operations

variable {mount : Mount} (charted : Charted mount.layout blockSize times state branches)
include charted

open Serving (Leads)

theorem requireWritable_leads :
    Leads mount.layout blockSize times (requireWritable mount) state branches
      fun _ state' branches' => state' = state ∧ branches' = branches := by
  unfold requireWritable
  split
  · exact .pure charted ⟨rfl, rfl⟩
  · exact .throw charted

theorem attributesAt_leads {names : List String} (hplain : ∀ name ∈ names, Path.Plain name) :
    Leads mount.layout blockSize times (attributesAt mount (Path.absolute names)) state branches
      fun attributes state' branches' =>
        Points state' branches' attributes.inode names attributes.kind := by
  refine .ask_bind charted fun stat hstat => ?_
  obtain ⟨branch, hbranch, hkind, -⟩ := exists_branch_of_lookup charted hplain hstat
  refine .bind (P := fun inode state' branches' =>
    Points state' branches' inode names branch.node.record.kind)
    (.inodeFor charted hplain hbranch fun inode inodes' _ points => points) ?_
  intro inode state' branches' charted' _ points
  unfold Attributes.ofStat?
  split
  · rename_i attributes hattributes
    split at hattributes
    · obtain rfl := Option.some.inj hattributes
      exact .pure charted' (hkind ▸ points)
    · cases hattributes
  · exact .throw charted'

theorem attributesOf_leads (inode : Nat) :
    Leads mount.layout blockSize times (attributesOf mount inode) state branches
      (StandsFor (state.inodes.path? inode)) :=
  .pathOf_bind charted fun names _ points =>
    (attributesAt_leads charted points.plain).mono
      fun _ _ _ _ points' => ⟨names, points.path_eq, points'⟩

/-- The path of a child whose name was read from a request. -/
theorem childAttributes_leads {names : List String} (hplain : ∀ name ∈ names, Path.Plain name)
    {name : String} (hname : Path.Plain name) {path? : Option String}
    (hpath : path? = some (Path.child (Path.absolute names) name)) :
    Leads mount.layout blockSize times (attributesAt mount (Path.child (Path.absolute names) name))
      state branches (StandsFor path?) := by
  rw [Path.child_absolute hplain] at hpath ⊢
  refine (attributesAt_leads charted (Path.plain_concat hplain hname)).mono ?_
  exact fun _ _ _ _ points => ⟨names ++ [name], hpath, points⟩

theorem lookup_leads (parent : Nat) {name : ByteArray} (hname : PlainName name) :
    Leads mount.layout blockSize times (lookup mount parent name) state branches
      (StandsFor (childPath? state.inodes parent name)) :=
  .pathOf_bind charted fun _ _ points => .ofExcept_bind charted fun _ htext =>
    childAttributes_leads charted points.plain (decodeName_plain htext hname)
      (childPath?_eq points.path_eq htext)

theorem setAttributes_leads (inode : Nat) (size? : Option Nat) :
    Leads mount.layout blockSize times (setAttributes mount inode size?) state branches
      (StandsFor (state.inodes.path? inode)) := by
  refine .bind (attributesOf_leads charted inode)
    fun attributes state' branches' charted' _ hstands => ?_
  split
  · exact .pure charted' hstands
  · exact .bind (requireWritable_leads charted') fun _ _ _ charted'' _ _ => .throw charted''

theorem openFile_leads (inode : Nat) (flags : Int) :
    Leads mount.layout blockSize times (openFile mount inode flags) state branches
      fun _ _ _ => True := by
  refine .pathOf_bind charted fun names _ points => .ask_bind charted fun stat _ => ?_
  split
  · exact .throw charted
  · split
    · exact (requireWritable_leads charted).mono fun _ _ _ _ _ => trivial
    · exact .pure charted trivial

theorem openDirectory_leads (inode : Nat) :
    Leads mount.layout blockSize times (openDirectory mount inode) state branches
      fun _ _ _ => True := by
  refine .pathOf_bind charted fun names _ points => .ask_bind charted fun stat _ => ?_
  split
  · exact .pure charted trivial
  · exact .throw charted

theorem read_leads (inode : Nat) (offset : Int) (length : Nat) :
    Leads mount.layout blockSize times (read mount inode offset length) state branches
      fun _ _ _ => True :=
  .ofExcept_bind charted fun _ _ => .pathOf_bind charted fun _ _ _ =>
    .ask charted fun _ _ => trivial

/-- The children that are listed get numbers that stand for them. -/
theorem childEntries_leads {names : List String} (hplain : ∀ name ∈ names, Path.Plain name)
    (nodes : List Node) (hnodes : ∀ node ∈ nodes, Path.Plain node.record.name ∧
      ∃ branch, branches (names ++ [node.record.name]) = some branch ∧
        branch.node.record.kind = node.record.kind) :
    Leads mount.layout blockSize times (childEntries (Path.absolute names) nodes) state branches
      fun entries state' branches' => ∀ entry ∈ entries,
        Points state' branches' entry.inode (names ++ [entry.name]) entry.kind := by
  induction nodes generalizing state branches with
  | nil => exact .pure charted fun _ h => absurd h List.not_mem_nil
  | cons node rest ih =>
    obtain ⟨hname, branch, hbranch, hkind⟩ := hnodes node (List.mem_cons_self ..)
    rw [childEntries, Path.child_absolute hplain]
    refine .bind (P := fun inode state' branches' => branches' = branches ∧
      Points state' branches' inode (names ++ [node.record.name]) node.record.kind)
      (.inodeFor charted (Path.plain_concat hplain hname) hbranch
        fun inode inodes' _ points => ⟨rfl, hkind ▸ points⟩) ?_
    rintro inode state' branches' charted' - ⟨rfl, points⟩
    refine .bind (ih charted' fun node' hnode' => hnodes node' (List.mem_cons_of_mem _ hnode')) ?_
    intro entries state'' branches'' charted'' moved hentries
    refine .pure charted'' fun entry hentry => ?_
    rcases List.mem_cons.mp hentry with rfl | hentry
    · exact points.moved moved
    · exact hentries entry hentry

omit charted in
/-- The nodes of a directory are branches. -/
theorem branches_of_list (charted : Charted layout blockSize times state branches)
    {names : List String} (hplain : ∀ name ∈ names, Path.Plain name) {nodes : Array Node}
    (h : Volume.list layout state.store (Path.absolute names) = .ok nodes) :
    (∃ branch, branches names = some branch ∧ branch.node.isDirectory) ∧
      ∀ node ∈ nodes.toList, Path.Plain node.record.name ∧
        ∃ branch, branches (names ++ [node.record.name]) = some branch ∧
          branch.node.record.kind = node.record.kind := by
  obtain ⟨⟨regular, hfits, -, -⟩, mapped⟩ := charted.sound
  have hnames := Path.components_absolute hplain
  obtain ⟨branch, hbranch, hkind, rfl⟩ := Volume.exists_branch_of_list regular hfits mapped h
  rw [hnames] at hbranch
  refine ⟨⟨branch, hbranch, hkind⟩, ?_⟩
  intro node hnode
  obtain ⟨child, hchild, rfl⟩ := mapped.exists_child hbranch hkind hnode
  exact ⟨Path.plain_of_validateName ((mapped.orderly hbranch hkind).valid _ hnode), child, hchild,
    rfl⟩

/-- A listing shows what the numbers stand for. -/
theorem entries_leads (inode : Nat) :
    Leads mount.layout blockSize times (entries mount inode) state branches
      fun entries state' branches' => Listing inode entries state' branches' := by
  refine .pathOf_bind charted fun names kind points => .ask_bind charted fun nodes hnodes => ?_
  obtain ⟨⟨branch, hbranch, hkind⟩, hchildren⟩ := branches_of_list charted points.plain hnodes
  have hplain : ∀ name ∈ names.dropLast, Path.Plain name :=
    fun name hname => points.plain name (List.mem_of_mem_dropLast hname)
  obtain ⟨parent, hparent, hparentKind⟩ := charted.sound.mapped.exists_above hbranch hkind
  rw [Path.parent_absolute points.plain]
  refine .bind (P := fun number state' branches' => branches' = branches ∧
    Points state' branches' number names.dropLast .directory ∧
    Points state' branches' inode names .directory)
    (.inodeFor charted hplain hparent fun number inodes' hextends points' => ⟨rfl,
      kind_of_isDirectory hparentKind ▸ points', hextends points.path_eq, points.plain,
      branch, hbranch, kind_of_isDirectory hkind⟩)
    ?_
  rintro number state' branches' charted' - ⟨rfl, hup, hself⟩
  refine .bind (childEntries_leads charted' points.plain nodes.toList hchildren) ?_
  intro children state'' branches'' charted'' moved hentries
  exact .pure charted'' ⟨names, number, children, rfl, hself.moved moved, hup.moved moved, hentries⟩

variable {now : UInt64} (hnow : now ∈ times)
include hnow

theorem write_leads (inode : Nat) (offset : Int) (data : ByteArray) :
    Leads mount.layout blockSize times (write mount now inode offset data) state branches
      fun _ _ _ => True := by
  refine .bind (requireWritable_leads charted) ?_
  rintro _ _ _ - - ⟨rfl, rfl⟩
  exact .ofExcept_bind charted fun offset _ => .pathOf_bind charted fun names _ _ =>
    .edit charted (Volume.write_settled charted.sound.standing now _ offset data)
      (Volume.write_dated charted.sound charted.dated hnow _ offset data) fun _ _ _ => trivial

theorem create_leads (parent : Nat) {name : ByteArray} (hname : PlainName name) (kind : Kind) :
    Leads mount.layout blockSize times (create mount now parent name kind) state branches
      (StandsFor (childPath? state.inodes parent name)) := by
  refine .bind (requireWritable_leads charted) ?_
  rintro _ _ _ - - ⟨rfl, rfl⟩
  refine .pathOf_bind charted fun names _ points => .ofExcept_bind charted fun text htext => ?_
  refine .bind (P := fun _ _ _ => True) (.edit charted
    (Volume.create_settled charted.sound.standing now _ text kind)
    (Volume.create_dated charted.sound charted.dated hnow _ text kind) fun _ _ _ => trivial) ?_
  exact fun _ _ _ charted' _ _ =>
    childAttributes_leads charted' points.plain (decodeName_plain htext hname)
      (childPath?_eq points.path_eq htext)

end Operations

/-- The name in a request, if it has one, is one step of a path. -/
def Request.Plain : Request → Prop
  | .lookup _ name | .makeDirectory _ name | .createFile _ name => PlainName name
  | _ => True

/-- The attributes that a reply tells. -/
def Reply.attributes? : Reply → Option Attributes
  | .entry node | .attributes node | .created node => some node
  | _ => none

/-- The reply tells attributes of the path that the request is about, as the numbers stood before,
and a page is cut out of a listing in which all numbers stand for their branches. -/
structure Truthful (inodes : Inodes) (request : Request) (reply : Reply) (state : State τ)
    (branches : Branches) : Prop where
  told : ∀ {attributes}, reply.attributes? = some attributes →
    StandsFor (request.subject? inodes) attributes state branches
  page : ∀ {inode offset room}, request = .readDirectory inode offset room →
    ∃ entries, reply = .page (DirectoryEntry.page entries offset.toNat room) ∧
      Listing inode entries state branches

/-- What stands in a page stands in the listing, at the place in front of its offset. -/
theorem getElem?_of_mem_page {entries : List DirectoryEntry} {offset room place : Nat}
    {entry : DirectoryEntry} (h : (place, entry) ∈ DirectoryEntry.page entries offset room) :
    ∃ i, place = i + 1 ∧ entries[i]? = some entry := by
  have hfill : ∀ (listing : List DirectoryEntry) (offset room : Nat),
      (place, entry) ∈ DirectoryEntry.fill offset room listing →
        ∃ i, place = offset + i + 1 ∧ listing[i]? = some entry := by
    intro listing
    induction listing with
    | nil => exact fun _ _ h => absurd h List.not_mem_nil
    | cons first rest ih =>
      intro offset room h
      rw [DirectoryEntry.fill] at h
      split at h
      · rcases List.mem_cons.mp h with heq | h
        · cases heq
          exact ⟨0, rfl, rfl⟩
        · obtain ⟨i, hplace, hi⟩ := ih _ _ h
          exact ⟨i + 1, by omega, hi⟩
      · exact absurd h List.not_mem_nil
  obtain ⟨i, hplace, hi⟩ := hfill _ _ _ h
  exact ⟨offset + i, hplace, List.getElem?_drop.symm.trans hi⟩

/-- A reply that tells attributes. -/
theorem attributes_truthful {mount : Mount} {act : Serving τ Attributes}
    {answer : Attributes → Reply} {request : Request}
    (hanswer : ∀ attributes, (answer attributes).attributes? = some attributes)
    (hrequest : ∀ inode offset room, request ≠ .readDirectory inode offset room)
    (h : Serving.Leads mount.layout blockSize times act state branches
      (StandsFor (request.subject? state.inodes))) :
    Serving.Leads mount.layout blockSize times (answer <$> act) state branches
      (Truthful state.inodes request) := by
  refine .map (h.mono fun attributes state' branches' _ hstands => ⟨fun {told} htold => ?_,
    fun hpage => absurd hpage (hrequest _ _ _)⟩)
  obtain rfl := Option.some.inj ((hanswer attributes).symm.trans htold)
  exact hstands

/-- A reply that tells no numbers. -/
theorem silent_truthful {mount : Mount} {α : Type} {act : Serving τ α} {answer : α → Reply}
    {request : Request} (hanswer : ∀ a, (answer a).attributes? = none)
    (hrequest : ∀ inode offset room, request ≠ .readDirectory inode offset room)
    (h : Serving.Leads mount.layout blockSize times act state branches fun _ _ _ => True) :
    Serving.Leads mount.layout blockSize times (answer <$> act) state branches
      (Truthful state.inodes request) := by
  refine .map (h.mono fun a state' branches' _ _ => ⟨fun {told} htold => ?_,
    fun hpage => absurd hpage (hrequest _ _ _)⟩)
  rw [hanswer] at htold
  cases htold

/-- Whatever is requested, the numbers stay in order. -/
theorem reply_leads {mount : Mount} (charted : Charted mount.layout blockSize times state branches)
    {now : UInt64} (hnow : now ∈ times) {request : Request} (hplain : request.Plain) :
    Serving.Leads mount.layout blockSize times (reply mount now request) state branches
      (Truthful state.inodes request) := by
  cases request with
  | lookup parent name =>
    exact attributes_truthful (fun _ => rfl) nofun (lookup_leads charted parent hplain)
  | getAttributes inode =>
    exact attributes_truthful (fun _ => rfl) nofun (attributesOf_leads charted inode)
  | setAttributes inode size? =>
    exact attributes_truthful (fun _ => rfl) nofun (setAttributes_leads charted inode size?)
  | openFile inode flags =>
    exact silent_truthful (fun _ => rfl) nofun (openFile_leads charted inode flags)
  | openDirectory inode =>
    exact silent_truthful (fun _ => rfl) nofun (openDirectory_leads charted inode)
  | read inode offset length =>
    exact silent_truthful (fun _ => rfl) nofun (read_leads charted inode offset length)
  | readDirectory inode offset room =>
    refine .map ((entries_leads charted inode).mono fun entries state' branches' _ listing =>
      ⟨nofun, fun hrequest => ?_⟩)
    cases hrequest
    exact ⟨entries, rfl, listing⟩
  | write inode offset data =>
    exact silent_truthful (fun _ => rfl) nofun (write_leads charted hnow inode offset data)
  | makeDirectory parent name =>
    exact attributes_truthful (fun _ => rfl) nofun (create_leads charted hnow parent hplain _)
  | createFile parent name =>
    exact attributes_truthful (fun _ => rfl) nofun (create_leads charted hnow parent hplain _)
  | statistics => exact silent_truthful (fun _ => rfl) nofun (.ask charted fun _ _ => trivial)

end ChainFs.Mount
