import ChainFs.Proofs.Mount.Requests

/-!
# Inode numbers for the whole mount

The kernel keeps what it was told of an inode number, so a number must go on standing for the same
node, and a node must not have two of them. The server knows nodes by their paths, the volume by
their records. That no two paths lead to one record, that names are told apart, and that records
never move is what the invariants of the volume say; that no two numbers stand for one path, and
that a number is told for no path but the one that was asked for, is what those of the table say.

* `Mount.after` — the state that requests lead to;
* `Mount.after_charted` — after any requests the volume and its table of numbers are in order;
* `Mount.Charted.nodes_apart`, `Mount.Charted.nextNumber_le` — different numbers have different
  nodes, and so there are no more numbers than blocks;
* `Mount.Finds`, `Mount.Shows` — lookups find again what listings show;
* `Mount.numbers_faithful` — the numbers of a mounted volume, from the first request to the last.

A reply may be looked at long after it was given. So everything told is carried to the end of the
run: numbers keep their paths, and paths keep their branches, through any calls in between.
-/

namespace ChainFs.Mount

open Store
open Volume (Branch Branches Sound Mapped Dated)

/-- The state after some requests, each at its time. -/
def after {σ : Type} [Store σ] (mount : Mount) (requests : List (UInt64 × Request))
    (state : State σ) : State σ :=
  requests.foldl (fun state timed => (mount.serve timed.1 timed.2 state).2) state

variable {τ : Type} [Store τ] [Reliable τ] {blockSize : UInt32} {times : List UInt64}
  {mount : Mount} {state state' : State τ} {branches branches' : Branches}

/-! ## States -/

/-- A request leads to a state in order, and a reply tells the truth about it. -/
theorem serve_charted (charted : Charted mount.layout blockSize times state branches) {now : UInt64}
    (hnow : now ∈ times) {request : Request} (hplain : request.Plain) :
    ∃ branches', Charted mount.layout blockSize times (mount.serve now request state).2 branches' ∧
      Moved state branches (mount.serve now request state).2 branches' ∧
      ∀ reply, (mount.serve now request state).1 = .reply reply →
        Truthful state.inodes request reply (mount.serve now request state).2 branches' := by
  have hleads := reply_leads charted hnow hplain
  unfold Serving.Leads at hleads
  unfold serve
  cases hreply : mount.reply now request state with
  | ok reply state' =>
    rw [hreply] at hleads
    obtain ⟨branches', charted', moved, htruthful⟩ := hleads
    refine ⟨branches', charted', moved, fun reply' heq => ?_⟩
    obtain rfl := Answer.reply.inj heq
    exact htruthful
  | error failure state' =>
    rw [hreply] at hleads
    obtain ⟨branches', charted', moved⟩ := hleads
    cases failure with
    | refused cause => exact ⟨branches', charted', moved, nofun⟩
    | timeOutOfRange mtime => exact ⟨branches', charted', moved, nofun⟩

/-- Any requests lead to a state in order. -/
theorem after_charted (charted : Charted mount.layout blockSize times state branches)
    (requests : List (UInt64 × Request))
    (hrequests : ∀ timed ∈ requests, timed.1 ∈ times ∧ timed.2.Plain) :
    ∃ branches', Charted mount.layout blockSize times (mount.after requests state) branches' ∧
      Moved state branches (mount.after requests state) branches' := by
  induction requests generalizing state branches with
  | nil => exact ⟨branches, charted, .refl state branches⟩
  | cons timed rest ih =>
    obtain ⟨hnow, hplain⟩ := hrequests timed (List.mem_cons_self ..)
    obtain ⟨branches', charted', moved, -⟩ := serve_charted charted hnow hplain
    obtain ⟨branches'', charted'', moved'⟩ :=
      ih charted' fun timed' h => hrequests timed' (List.mem_cons_of_mem _ h)
    exact ⟨branches'', charted'', moved.trans moved'⟩

/-- Before any request. -/
theorem charted_initial {store : τ}
    (sound : Sound mount.layout blockSize (Store.size store) (content store) branches)
    (dated : Dated branches times) :
    Charted mount.layout blockSize times ⟨Inodes.initial, store⟩ branches where
  sound := sound
  dated := dated
  paired := Inodes.paired_initial
  known h := by
    obtain ⟨-, rfl⟩ := Inodes.initial_path?_iff.mp h
    obtain ⟨chain, hroot⟩ := sound.mapped.root
    exact ⟨[], _, fun _ h => absurd h List.not_mem_nil, rfl, hroot⟩

theorem Charted.scan_eq (charted : Charted mount.layout blockSize times state branches)
    {names : List String} (hplain : ∀ name ∈ names, Path.Plain name) {branch : Branch}
    (h : branches names = some branch) :
    Volume.scan mount.layout state.store (Path.absolute names) = .ok (some branch.node) := by
  rw [Volume.scan_eq charted.sound.regular charted.sound.fits charted.sound.mapped,
    Path.components_absolute hplain, h]
  rfl

/-- A path of the table leads to its branch. -/
theorem Charted.exists_scan (charted : Charted mount.layout blockSize times state branches)
    {number : Nat} {path : String} (h : state.inodes.path? number = some path) :
    ∃ names branch, (∀ name ∈ names, Path.Plain name) ∧ path = Path.absolute names ∧
      branches names = some branch ∧
      Volume.scan mount.layout state.store path = .ok (some branch.node) := by
  obtain ⟨names, branch, hplain, rfl, hbranch⟩ := charted.known h
  exact ⟨names, branch, hplain, rfl, hbranch, charted.scan_eq hplain hbranch⟩

/-- Different numbers stand for different nodes. -/
theorem Charted.nodes_apart (charted : Charted mount.layout blockSize times state branches)
    {number number' : Nat} {path path' : String} {node node' : Node} (hne : number ≠ number')
    (hpath : state.inodes.path? number = some path)
    (hpath' : state.inodes.path? number' = some path')
    (hscan : Volume.scan mount.layout state.store path = .ok (some node))
    (hscan' : Volume.scan mount.layout state.store path' = .ok (some node')) :
    node.record.address ≠ node'.record.address ∧ node.recordAddress ≠ node'.recordAddress := by
  obtain ⟨names, branch, -, rfl, hbranch, hbranchScan⟩ := charted.exists_scan hpath
  obtain ⟨names', branch', -, rfl, hbranch', hbranchScan'⟩ := charted.exists_scan hpath'
  obtain rfl := Option.some.inj (Except.ok.inj (hscan.symm.trans hbranchScan))
  obtain rfl := Option.some.inj (Except.ok.inj (hscan'.symm.trans hbranchScan'))
  have mapped := charted.sound.mapped
  -- both come from the same names, so both numbers were handed out for one path
  have hsame : names ≠ names' := by
    rintro rfl
    exact hne (charted.paired.eq_of_path? hpath hpath')
  refine ⟨fun haddress => hsame ?_, fun hrecord => hsame ?_⟩
  · refine mapped.apart hbranch hbranch' (List.mem_of_getElem? (mapped.first hbranch)) ?_
    rw [haddress]
    exact List.mem_of_getElem? (mapped.first hbranch')
  · rcases hx : branch.node.recordAddress with _ | x
    · rw [(mapped.eq_nil_iff hbranch).mpr hx,
        (mapped.eq_nil_iff hbranch').mpr (hrecord.symm.trans hx)]
    · exact mapped.eq_of_recordAddress charted.sound.regular hbranch hbranch' hx
        (hrecord.symm.trans hx)

/-- Each number has the first block of its node to itself, and so there are no more numbers than
blocks that the bitmap speaks of. -/
theorem Charted.nextNumber_le (charted : Charted mount.layout blockSize times state branches) :
    state.inodes.nextNumber ≤ mount.layout.bitmapBits + 1 := by
  have hfirst : ∀ number ∈ Finset.Ico Inodes.root state.inodes.nextNumber,
      ∃ address ∈ mount.layout.covered, ∃ path node, state.inodes.path? number = some path ∧
        Volume.scan mount.layout state.store path = .ok (some node) ∧
        node.record.address = address := by
    intro number hnumber
    obtain ⟨path, hpath⟩ := charted.paired.used_iff.mpr (Finset.mem_Ico.mp hnumber)
    obtain ⟨names, branch, -, rfl, hbranch, hscan⟩ := charted.exists_scan hpath
    have hmem := List.mem_of_getElem? (charted.sound.mapped.first hbranch)
    exact ⟨_, (charted.sound.mapped.intact hbranch).covered hmem, _, branch.node, hpath, hscan, rfl⟩
  choose! address hcovered hleads using hfirst
  have hcard : (Finset.Ico Inodes.root state.inodes.nextNumber).card
      ≤ mount.layout.covered.card := by
    refine Finset.card_le_card_of_injOn address hcovered
      fun number hnumber number' hnumber' heq => ?_
    obtain ⟨path, node, hpath, hscan, haddress⟩ := hleads number hnumber
    obtain ⟨path', node', hpath', hscan', haddress'⟩ := hleads number' hnumber'
    by_contra hne
    refine (charted.nodes_apart hne hpath hpath' hscan hscan').1 ?_
    rw [haddress, haddress', heq]
  rw [Nat.card_Ico, charted.sound.regular.card_covered, Inodes.root] at hcard
  omega

/-! ## Lookups -/

/-- The lookup of a name answers a number and a kind and changes nothing. It brings down the server
if the node's mtime, which is one of the times, is none that the kernel knows. -/
def Finds (mount : Mount) (times : List UInt64) (state : State τ) (parent : Nat) (name : String)
    (number : Nat) (kind : Kind) : Prop :=
  ∀ now, ∃ size, ∃ mtime ∈ times, mount.serve now (.lookup parent name.toUTF8) state =
    (if mtime.toNat < Attributes.timeLimit then
      .reply (.entry ⟨number, kind, size, mtime, mount.layout.blockSize⟩) else .serverDown, state)

omit [Reliable τ] in
theorem serve_lookup_eq {now : UInt64} {parent number : Nat} {name path : String} {stat : Stat}
    (hpath : state.inodes.path? parent = some path)
    (hlookup : Volume.lookup mount.layout state.store (Path.child path name) = .ok stat)
    (hassign : state.inodes.assign (Path.child path name) = (number, state.inodes)) :
    mount.serve now (.lookup parent name.toUTF8) state =
      (match Attributes.ofStat? mount.layout.blockSize number stat with
        | some attributes => .reply (.entry attributes)
        | none => .serverDown, state) := by
  simp only [serve, reply, lookup, attributesAt, Serving.pathOf, Serving.ask, Serving.ofExcept,
    Serving.inodeFor, bind, EStateM.bind, Functor.map, EStateM.map, hpath, decodeName_toUTF8,
    hlookup, hassign]
  cases Attributes.ofStat? mount.layout.blockSize number stat <;> rfl

theorem Charted.finds (charted : Charted mount.layout blockSize times state branches)
    {parent number : Nat} {names : List String} {name : String} {kind kind' : Kind}
    (above : Points state branches parent names kind')
    (points : Points state branches number (names ++ [name]) kind) :
    Finds mount times state parent name number kind := by
  obtain ⟨⟨regular, hfits, -, -⟩, mapped⟩ := charted.sound
  obtain ⟨branch, hbranch, rfl⟩ := points.branch
  obtain ⟨x, hx⟩ := mapped.exists_record hbranch (by simp)
  have hdated := charted.dated _ _ hbranch (by simp [hx])
  have hcomponents := Path.components_absolute points.plain
  have hlookup := Volume.lookup_eq regular hfits mapped (hcomponents ▸ hbranch)
  rw [← Path.child_absolute above.plain, if_neg (by simp [hx])] at hlookup
  have hassign := Inodes.assign_of_path? charted.paired points.path_eq
  rw [← Path.child_absolute above.plain] at hassign
  intro now
  refine ⟨branch.node.record.size.toNat, branch.node.record.mtime, hdated, ?_⟩
  rw [serve_lookup_eq above.path_eq hlookup hassign, Attributes.ofStat?]
  dsimp only
  by_cases hlimit : branch.node.record.mtime.toNat < Attributes.timeLimit
  · rw [if_pos hlimit, if_pos hlimit]
  · rw [if_neg hlimit, if_neg hlimit]

/-- What an entry of a page shows: the first one the directory itself, the second one its parent,
where the root has itself, and all others children that a lookup finds. Their numbers stand for the
paths that are one name shorter and one name longer. -/
def Shows (mount : Mount) (times : List UInt64) (state : State τ) (inode place : Nat)
    (entry : DirectoryEntry) : Prop :=
  ∃ path, state.inodes.path? inode = some path ∧
    match place with
    | 1 => entry = ⟨inode, .directory, "."⟩
    | 2 => entry.kind = .directory ∧ entry.name = ".." ∧
        state.inodes.path? entry.inode = some (Path.parent path) ∧
        if inode = Inodes.root then entry.inode = Inodes.root
        else ∃ name, Finds mount times state entry.inode name inode .directory
    | _ => state.inodes.path? entry.inode = some (Path.child path entry.name) ∧
        Finds mount times state inode entry.name entry.inode entry.kind

/-- The entries of a listing go on showing what they showed. -/
theorem Listing.shows {inode : Nat} {entries : List DirectoryEntry}
    (listing : Listing inode entries state branches)
    (charted : Charted mount.layout blockSize times state' branches')
    (moved : Moved state branches state' branches') {place : Nat} {entry : DirectoryEntry}
    (hentry : entries[place]? = some entry) : Shows mount times state' inode (place + 1) entry := by
  obtain ⟨names, parent, children, rfl, hself, hup, hchildren⟩ := listing
  have hself' := hself.moved moved
  have hup' := hup.moved moved
  refine ⟨Path.absolute names, hself'.path_eq, ?_⟩
  match place with
  | 0 => exact (Option.some.inj hentry).symm
  | 1 =>
    obtain rfl := Option.some.inj hentry
    refine ⟨rfl, rfl, (Path.parent_absolute hself'.plain).symm ▸ hup'.path_eq, ?_⟩
    have hroot := charted.paired.root_eq
    obtain rfl | ⟨front, name, rfl⟩ := List.eq_nil_or_concat names
    · rw [if_pos (charted.paired.eq_of_path? hself'.path_eq hroot)]
      exact charted.paired.eq_of_path? hup'.path_eq hroot
    · rw [List.concat_eq_append] at hself' hup'
      rw [List.dropLast_concat] at hup'
      rw [if_neg]
      · exact ⟨name, charted.finds hup' hself'⟩
      · -- only the root has the number of the root
        rintro rfl
        have hpath := Option.some.inj (hself'.path_eq.symm.trans hroot)
        have hnil : Path.components "/" = front ++ [name] := by
          rw [← hpath, Path.components_absolute hself'.plain]
        exact List.append_ne_nil_of_right_ne_nil front (List.cons_ne_nil name []) hnil.symm
  | place + 2 =>
    have hchild := (hchildren entry (List.mem_of_getElem? hentry)).moved moved
    exact ⟨(Path.child_absolute hself'.plain entry.name).symm ▸ hchild.path_eq,
      charted.finds hself' hchild⟩

/-! ## Mounts -/

/-- The number whose attributes a request asks for. -/
def Request.inode? : Request → Option Nat
  | .getAttributes inode | .setAttributes inode _ => some inode
  | _ => none

/-- The inode numbers of a mount, from a first state on. -/
structure NumbersFaithful (mount : Mount) (times : List UInt64) (start : State τ)
    (requests : List (UInt64 × Request)) : Prop where
  /-- Paths and numbers name each other. -/
  inverse : ∀ number path, (mount.after requests start).inodes.path? number = some path ↔
    (mount.after requests start).inodes.number? path = some number
  root : (mount.after requests start).inodes.path? Inodes.root = some "/"
  below : ∀ number path, (mount.after requests start).inodes.path? number = some path →
    number < (mount.after requests start).inodes.nextNumber
  /-- There are no more numbers than blocks, and so the counter, which has 64 bits, never runs
  over. -/
  bounded : (mount.after requests start).inodes.nextNumber ≤ mount.layout.bitmapBits + 1 ∧
    (mount.after requests start).inodes.nextNumber < UInt64.size
  /-- A number keeps its path, and the path leads to the same node, whatever its size and mtime. -/
  kept : ∀ before rest, requests = before ++ rest → ∀ number path,
    (mount.after before start).inodes.path? number = some path →
      (mount.after requests start).inodes.path? number = some path ∧
      ∃ node node',
        Volume.scan mount.layout (mount.after before start).store path = .ok (some node) ∧
        Volume.scan mount.layout (mount.after requests start).store path = .ok (some node') ∧
        node'.record.kind = node.record.kind ∧ node'.record.address = node.record.address ∧
        node'.recordAddress = node.recordAddress
  /-- Different numbers lead to different nodes. -/
  apart : ∀ number number' path path' node node', number ≠ number' →
    (mount.after requests start).inodes.path? number = some path →
    (mount.after requests start).inodes.path? number' = some path' →
    Volume.scan mount.layout (mount.after requests start).store path = .ok (some node) →
    Volume.scan mount.layout (mount.after requests start).store path' = .ok (some node') →
      node.record.address ≠ node'.record.address ∧ node.recordAddress ≠ node'.recordAddress
  /-- Attributes are told with the number of the path that the request is about, and the path leads
  to a node of the told kind from then on. -/
  told : ∀ before now request rest reply attributes, requests = before ++ (now, request) :: rest →
    (mount.serve now request (mount.after before start)).1 = .reply reply →
    reply.attributes? = some attributes →
    ∃ path node, request.subject? (mount.after before start).inodes = some path ∧
      (mount.after requests start).inodes.path? attributes.inode = some path ∧
      Volume.scan mount.layout (mount.after requests start).store path = .ok (some node) ∧
      node.record.kind = attributes.kind
  /-- What is asked of a number is told of this number. -/
  asked : ∀ before now request rest reply attributes inode,
    requests = before ++ (now, request) :: rest →
    (mount.serve now request (mount.after before start)).1 = .reply reply →
    reply.attributes? = some attributes → request.inode? = some inode → attributes.inode = inode
  /-- Pages of listings show what lookups find from then on. -/
  shown : ∀ before now inode offset room rest page,
    requests = before ++ (now, .readDirectory inode offset room) :: rest →
    (mount.serve now (.readDirectory inode offset room) (mount.after before start)).1
      = .reply (.page page) →
    ∀ place entry, (place, entry) ∈ page →
      Shows mount times (mount.after requests start) inode place entry

omit [Reliable τ] in
theorem after_append (mount : Mount) (before rest : List (UInt64 × Request)) (start : State τ) :
    mount.after (before ++ rest) start = mount.after rest (mount.after before start) :=
  List.foldl_append

omit [Reliable τ] in
theorem after_cons (mount : Mount) (now : UInt64) (request : Request)
    (rest : List (UInt64 × Request)) (start : State τ) :
    mount.after ((now, request) :: rest) start
      = mount.after rest (mount.serve now request start).2 :=
  rfl

section

variable {start : State τ}

/-- What a request in the middle of a run leads to, and from there to the end of the run. -/
theorem Charted.served (charted : Charted mount.layout blockSize times start branches)
    {before rest : List (UInt64 × Request)} {now : UInt64} {request : Request}
    (hrequests : ∀ timed ∈ before ++ (now, request) :: rest, timed.1 ∈ times ∧ timed.2.Plain) :
    ∃ branches' branches'', Charted mount.layout blockSize times
        (mount.after (before ++ (now, request) :: rest) start) branches'' ∧
      Moved (mount.serve now request (mount.after before start)).2 branches'
        (mount.after (before ++ (now, request) :: rest) start) branches'' ∧
      ∀ reply, (mount.serve now request (mount.after before start)).1 = .reply reply →
        Truthful (mount.after before start).inodes request reply
          (mount.serve now request (mount.after before start)).2 branches' := by
  obtain ⟨branches₁, charted₁, -⟩ := after_charted charted before fun timed h =>
    hrequests timed (List.mem_append_left _ h)
  obtain ⟨hnow, hplain⟩ := hrequests (now, request) (by simp)
  obtain ⟨branches₂, charted₂, -, htruthful⟩ := serve_charted charted₁ hnow hplain
  obtain ⟨branches₃, charted₃, moved⟩ := after_charted charted₂ rest fun timed h =>
    hrequests timed (by simp [h])
  rw [after_append, after_cons]
  exact ⟨branches₂, branches₃, charted₃, moved, htruthful⟩

/-- What a path leads to in the middle of a run, it leads to at the end of the run. -/
theorem Charted.kept (charted : Charted mount.layout blockSize times start branches)
    {before rest : List (UInt64 × Request)}
    (hrequests : ∀ timed ∈ before ++ rest, timed.1 ∈ times ∧ timed.2.Plain) {number : Nat}
    {path : String} (hpath : (mount.after before start).inodes.path? number = some path) :
    (mount.after (before ++ rest) start).inodes.path? number = some path ∧
    ∃ node node',
      Volume.scan mount.layout (mount.after before start).store path = .ok (some node) ∧
      Volume.scan mount.layout (mount.after (before ++ rest) start).store path
        = .ok (some node') ∧
      node'.record.kind = node.record.kind ∧ node'.record.address = node.record.address ∧
      node'.recordAddress = node.recordAddress := by
  obtain ⟨branches₁, charted₁, -⟩ := after_charted charted before fun timed h =>
    hrequests timed (List.mem_append_left _ h)
  obtain ⟨branches₂, charted₂, moved⟩ := after_charted charted₁ rest fun timed h =>
    hrequests timed (List.mem_append_right _ h)
  rw [after_append]
  obtain ⟨names, branch, hplain, rfl, hbranch, hscan⟩ := charted₁.exists_scan hpath
  obtain ⟨branch', hbranch', hkeeps⟩ := moved.keeps hbranch
  exact ⟨moved.grows hpath, branch.node, branch'.node, hscan,
    charted₂.scan_eq hplain hbranch', hkeeps.kind_eq, hkeeps.address_eq, hkeeps.recordAddress_eq⟩

/-- What is told of a path in the middle of a run is true at the end of the run. -/
theorem Charted.told (charted : Charted mount.layout blockSize times start branches)
    {before rest : List (UInt64 × Request)} {now : UInt64} {request : Request}
    (hrequests : ∀ timed ∈ before ++ (now, request) :: rest, timed.1 ∈ times ∧ timed.2.Plain)
    {reply : Reply} {attributes : Attributes}
    (hreply : (mount.serve now request (mount.after before start)).1 = .reply reply)
    (hattributes : reply.attributes? = some attributes) :
    ∃ path node, request.subject? (mount.after before start).inodes = some path ∧
      (mount.after (before ++ (now, request) :: rest) start).inodes.path? attributes.inode
        = some path ∧
      Volume.scan mount.layout (mount.after (before ++ (now, request) :: rest) start).store path
        = .ok (some node) ∧
      node.record.kind = attributes.kind := by
  obtain ⟨branches₁, branches₂, charted', moved, htruthful⟩ := charted.served hrequests
  obtain ⟨names, hsubject, points⟩ := (htruthful reply hreply).told hattributes
  have points' := points.moved moved
  obtain ⟨branch, hbranch, hkind⟩ := points'.branch
  exact ⟨Path.absolute names, branch.node, hsubject, points'.path_eq,
    charted'.scan_eq points'.plain hbranch, hkind⟩

/-- A volume in order is mounted. -/
theorem Charted.numbersFaithful (charted : Charted mount.layout blockSize times start branches)
    (requests : List (UInt64 × Request))
    (hrequests : ∀ timed ∈ requests, timed.1 ∈ times ∧ timed.2.Plain) :
    NumbersFaithful mount times start requests := by
  obtain ⟨branches', last, -⟩ := after_charted charted requests hrequests
  refine {
    inverse := fun number path => last.paired.inverse
    root := last.paired.root_eq
    below := fun number path => last.paired.lt_nextNumber
    bounded := ⟨last.nextNumber_le, Nat.lt_of_le_of_lt last.nextNumber_le ?_⟩
    kept := by
      rintro before rest rfl number path hpath
      exact charted.kept hrequests hpath
    apart := fun _ _ _ _ _ _ => last.nodes_apart
    told := by
      rintro before now request rest reply attributes rfl hreply hattributes
      exact charted.told hrequests hreply hattributes
    asked := by
      rintro before now request rest reply attributes inode rfl hreply hattributes hinode
      obtain ⟨path, node, hsubject, hpath, -⟩ := charted.told hrequests hreply hattributes
      have hasked : (mount.after before start).inodes.path? inode = some path := by
        cases request with
        | getAttributes | setAttributes => exact Option.some.inj hinode ▸ hsubject
        | _ => cases hinode
      exact last.paired.eq_of_path? hpath (charted.kept hrequests hasked).1
    shown := by
      rintro before now inode offset room rest page rfl hreply place entry hentry
      obtain ⟨branches₁, branches₂, charted', moved, htruthful⟩ := charted.served hrequests
      obtain ⟨entries, hpage, listing⟩ := (htruthful _ hreply).page rfl
      obtain rfl := Reply.page.inj hpage
      obtain ⟨i, rfl, hi⟩ := getElem?_of_mem_page hentry
      exact listing.shows charted' moved hi }
  have := last.sound.regular.covered_fit
  have := last.sound.regular.blockCount_lt
  rw [UInt64.size]
  omega

end

/-- A formatted volume, whatever calls were made of it, is mounted. -/
theorem numbers_faithful {layout : Layout} {blank formatted : τ}
    (hformat : Volume.format blockSize blank = .ok layout formatted)
    (calls : List (UInt64 × Volume.Call)) (options : Options)
    (requests : List (UInt64 × Request)) (hplain : ∀ timed ∈ requests, timed.2.Plain) :
    NumbersFaithful ⟨layout, options⟩ (calls.map Prod.fst ++ requests.map Prod.fst)
      ⟨Inodes.initial, (Volume.Call.runAll layout calls formatted).2⟩ requests := by
  obtain ⟨hsize, hformatted⟩ := Volume.formatted_of_ok hformat
  have sound := hformatted.sound
  rw [← hsize] at sound
  obtain ⟨branches, sound', dated⟩ := Volume.Call.runAll_dated calls sound
    (Volume.dated_rootOnly layout _) (List.subset_append_left _ (requests.map Prod.fst))
  generalize hmount : Mount.mk layout options = mount
  obtain rfl : mount.layout = layout := hmount ▸ rfl
  refine Charted.numbersFaithful (charted_initial sound' dated) requests fun timed h => ?_
  exact ⟨List.mem_append_right _ (List.mem_map_of_mem h), hplain timed h⟩

theorem numbers_on_blank :
    ∃ volume : Memory, Volume.format 512 (Volume.blank 4195840) = .ok Volume.smallest volume ∧
      NumbersFaithful ⟨Volume.smallest, ⟨true, false⟩⟩ [5, 6, 7, 8]
        ⟨Inodes.initial, (Volume.Call.runAll Volume.smallest [(5, .createFile "/a")] volume).2⟩
        [(6, .makeDirectory 1 "d".toUTF8), (7, .createFile 2 "b".toUTF8),
          (8, .readDirectory 2 0 4096)] := by
  obtain ⟨volume, hformat⟩ := Volume.format_blank
  refine ⟨volume, hformat, numbers_faithful hformat [(5, .createFile "/a")] ⟨true, false⟩
    [(6, .makeDirectory 1 "d".toUTF8), (7, .createFile 2 "b".toUTF8),
      (8, .readDirectory 2 0 4096)] ?_⟩
  simp only [List.forall_mem_cons, List.not_mem_nil, false_implies, implies_true]
  exact ⟨⟨by decide, by decide⟩, ⟨by decide, by decide⟩, trivial, trivial⟩

end ChainFs.Mount
