import ChainFs.Proofs.Mount.Effects
import ChainFs.Proofs.Mount.Numbers
import ChainFs.Proofs.Volume.Listings
import ChainFs.Proofs.Volume.Reopened

/-!
# Reading a directory page by page

Every page is cut out of a listing that is made anew, at the place where the page before it ended.
In between, other requests may change the directory.

* `Mount.whole` — all that the pages of a directory have to tell, `Mount.entries_eq`;
* `Mount.Turn`, `Mount.readPages` — a client that asks for page after page, while the server has
  other requests to answer, until a page is empty;
* `Mount.Underway` — what it has received is the beginning of what there is to tell;
* `Mount.pages_exact` — in the end it is all of that, and each page in between brings something.

A client knows no more than an offset. That it can go on with it, although the listing is another
one by now, is because a listing only ever gets longer at its end; so what was told is a beginning
of every later listing, in the same words.
-/

namespace ChainFs.Mount

open Store
open Volume (Sound shown namesOf)

/-! ## Pages -/

namespace DirectoryEntry

/-- A page is the beginning of what is left. -/
theorem fill_isPrefix (offset room : Nat) (entries : List DirectoryEntry) :
    (fill offset room entries).map Prod.snd <+: entries := by
  induction entries generalizing offset room with
  | nil => exact List.prefix_rfl
  | cons entry rest ih =>
    rw [fill]
    split
    · exact (List.prefix_cons_inj entry).mpr (ih _ _)
    · exact List.nil_prefix

/-- The offset of the last entry is the place where the next page starts. -/
theorem offset_of_getLast? {offset room : Nat} {entries : List DirectoryEntry}
    {last : Nat × DirectoryEntry} (h : (fill offset room entries).getLast? = some last) :
    last.1 = offset + (fill offset room entries).length := by
  induction entries generalizing offset room with
  | nil => cases h
  | cons entry rest ih =>
    rw [fill] at h ⊢
    split at h
    · rename_i hroom
      rw [if_pos hroom, List.length_cons]
      rcases hpage : fill (offset + 1) (room - entry.replySize) rest with _ | ⟨first, more⟩
      · rw [hpage] at h
        obtain rfl := Option.some.inj h
        rfl
      · rw [hpage, List.getLast?_cons_cons] at h
        have hlast := ih (hpage ▸ h)
        rw [hpage] at hlast
        omega
    · cases h

/-- A page is empty only where nothing is left, if there is room for an entry. -/
theorem eq_nil_of_fill {offset room : Nat} {entries : List DirectoryEntry}
    (hroom : ∀ entry ∈ entries, entry.replySize ≤ room) (h : fill offset room entries = []) :
    entries = [] := by
  cases entries with
  | nil => rfl
  | cons entry rest =>
    rw [fill, if_pos (hroom entry (List.mem_cons_self ..))] at h
    cases h

theorem replySize_le {entry : DirectoryEntry}
    (h : entry.name.utf8ByteSize ≤ Record.maxNameSize) : entry.replySize ≤ 280 := by
  rw [Record.maxNameSize] at h
  rw [replySize]
  omega

end DirectoryEntry

/-! ## Listings -/

/-- What an entry says: where its number leads, its kind and its name. -/
def said (inodes : Inodes) (entry : DirectoryEntry) : Option String × Kind × String :=
  (inodes.path? entry.inode, entry.kind, entry.name)

/-- What the pages of a directory have to tell: the directory itself, its parent, and then all that
it lists, in this order. -/
def whole (path : String) (nodes : Array Node) : List (Option String × Kind × String) :=
  (some path, .directory, ".") :: (some (Path.parent path), .directory, "..") ::
    (shown nodes).map fun entry => (some (Path.child path entry.1), entry.2, entry.1)

theorem whole_mono (path : String) {nodes nodes' : Array Node} (h : shown nodes <+: shown nodes') :
    whole path nodes <+: whole path nodes' := by
  rw [whole, whole, List.prefix_cons_inj, List.prefix_cons_inj]
  exact h.map _

theorem names_whole (path : String) (nodes : Array Node) :
    (whole path nodes).map (·.2.2) = "." :: ".." :: namesOf nodes := by
  rw [whole, List.map_cons, List.map_cons, List.map_map, Volume.namesOf_eq]
  rfl

theorem names_said (inodes : Inodes) (entries : List DirectoryEntry) :
    (entries.map (said inodes)).map (·.2.2) = entries.map (·.name) := by
  rw [List.map_map]
  rfl

/-- The names of a directory and the two in front of them are different, and none is too long. -/
theorem names_orderly {σ : Type} [Store σ] [Faithful σ] {layout : Layout} {store : σ}
    {branches : Volume.Branches} (regular : layout.Regular)
    (hsize : layout.endAddress ≤ Store.size store)
    (mapped : Volume.Mapped layout (content store) branches) {path : String} {nodes : Array Node}
    (h : Volume.list layout store path = .ok nodes) :
    ("." :: ".." :: namesOf nodes).Nodup ∧
      ∀ name ∈ "." :: ".." :: namesOf nodes, name.utf8ByteSize ≤ Record.maxNameSize := by
  obtain ⟨hnodup, hvalid⟩ := Volume.list_orderly regular hsize mapped h
  have hname : ∀ name ∈ namesOf nodes, Directory.ValidName name :=
    fun name hmem => Directory.validName_of_ok (hvalid name hmem)
  refine ⟨?_, ?_⟩
  · refine List.nodup_cons.mpr ⟨?_, List.nodup_cons.mpr ⟨fun hmem => ?_, hnodup⟩⟩
    · rw [List.mem_cons]
      rintro (heq | hmem)
      · exact absurd heq (by decide)
      · exact (hname _ hmem).ne_self rfl
    · exact (hname _ hmem).ne_parent rfl
  · intro name hmem
    rw [List.mem_cons, List.mem_cons] at hmem
    rcases hmem with rfl | rfl | hmem
    · decide
    · decide
    · exact (hname name hmem).size_le

/-- Numbers that lead somewhere go on doing so. -/
theorem said_of_extends {inodes inodes' : Inodes} (hextends : inodes.Extends inodes')
    {entries : List DirectoryEntry} {path : String} {nodes : Array Node}
    (h : entries.map (said inodes) <+: whole path nodes) :
    entries.map (said inodes') = entries.map (said inodes) := by
  refine List.map_congr_left fun entry hentry => ?_
  have hmem : said inodes entry ∈ whole path nodes := h.subset (List.mem_map_of_mem hentry)
  have hsome : ∃ there, inodes.path? entry.inode = some there := by
    rw [whole, List.mem_cons, List.mem_cons, List.mem_map] at hmem
    rcases hmem with heq | heq | ⟨line, -, heq⟩
    · exact ⟨_, congrArg Prod.fst heq⟩
    · exact ⟨_, congrArg Prod.fst heq⟩
    · exact ⟨_, (congrArg Prod.fst heq).symm⟩
  obtain ⟨there, hthere⟩ := hsome
  rw [said, said, hthere, hextends hthere]

/-- What was received before stands at the front of the new entries, in the same words. -/
theorem retold {inodes inodes' : Inodes} (hextends : inodes.Extends inodes')
    {received entries : List DirectoryEntry} {path : String} {nodes : Array Node}
    (hreceived : received.map (said inodes) <+: whole path nodes)
    (hentries : entries.map (said inodes') = whole path nodes) :
    received.map (said inodes') = (entries.take received.length).map (said inodes') := by
  rw [said_of_extends hextends hreceived, List.map_take, hentries]
  have htake := List.prefix_iff_eq_take.mp hreceived
  rwa [List.length_map] at htake

section Entries

variable {τ : Type} {inodes : Inodes} {store : τ}

/-- The children of a directory get numbers that lead to them. -/
theorem childEntries_eq (store : τ) (paired : inodes.Paired) (path : String)
    (nodes : List Node) :
    ∃ entries inodes', childEntries path nodes (State.mk inodes store)
        = .ok entries (State.mk inodes' store) ∧
      inodes.Extends inodes' ∧ inodes'.Paired ∧
      entries.map (said inodes') = nodes.map fun node =>
        (some (Path.child path node.record.name), node.record.kind, node.record.name) := by
  induction nodes generalizing inodes with
  | nil => exact ⟨[], inodes, rfl, .refl inodes, paired, rfl⟩
  | cons node rest ih =>
    obtain ⟨hpath, hextends, paired', -⟩ :=
      Inodes.assign_spec paired (Path.child path node.record.name)
    obtain ⟨entries, inodes'', hentries, hextends', paired'', hsaid⟩ := ih paired'
    refine ⟨⟨(inodes.assign (Path.child path node.record.name)).1, node.record.kind,
      node.record.name⟩ :: entries, inodes'', ?_, hextends.trans hextends', paired'', ?_⟩
    · simp only [childEntries, Serving.inodeFor, bind, EStateM.bind, pure, EStateM.pure, hentries]
    · rw [List.map_cons, List.map_cons, hsaid, said, hextends' hpath]

/-- The entries of a directory are all that there is to tell of it. -/
theorem entries_eq [Store τ] {mount : Mount} (paired : inodes.Paired) {inode : Nat}
    {path : String} (hpath : inodes.path? inode = some path) {nodes : Array Node}
    (hlist : Volume.list mount.layout store path = .ok nodes) :
    ∃ entries inodes', Mount.entries mount inode (State.mk inodes store)
        = .ok entries (State.mk inodes' store) ∧
      inodes.Extends inodes' ∧ inodes'.Paired ∧ entries.map (said inodes') = whole path nodes := by
  obtain ⟨hparent, hextends, paired', -⟩ := Inodes.assign_spec paired (Path.parent path)
  obtain ⟨children, inodes'', hchildren, hextends', paired'', hsaid⟩ :=
    childEntries_eq store paired' path nodes.toList
  refine ⟨⟨inode, .directory, "."⟩ :: ⟨(inodes.assign (Path.parent path)).1, .directory, ".."⟩ ::
    children, inodes'', ?_, hextends.trans hextends', paired'', ?_⟩
  · simp only [Mount.entries, Serving.pathOf, Serving.ask, Serving.inodeFor, bind, EStateM.bind,
      pure, EStateM.pure, hpath, hlist, hchildren]
  · rw [List.map_cons, List.map_cons, hsaid, said, said, hextends' hparent,
      hextends' (hextends hpath), whole, shown, List.map_map]
    rfl

end Entries

/-! ## A client -/

/-- What a client goes through for a page: the server has other requests to answer before it comes
to this one, for which the client has some room. -/
structure Turn where
  before : List (UInt64 × Request)
  now : UInt64
  room : Nat

/-- How far a client has come: what it has received, and the state that its last request left. -/
inductive Progress (σ : Type)
  /-- No page was empty so far. -/
  | reading (received : List DirectoryEntry) (state : State σ)
  /-- The last page was empty. -/
  | finished (received : List DirectoryEntry) (state : State σ)
  /-- There was no page. -/
  | failed

/-- A client reads on in a directory until a page is empty. The next page starts at the offset of
the last entry that came. -/
def readPages {σ : Type} [Store σ] (mount : Mount) (inode : Nat) :
    List Turn → Nat → List DirectoryEntry → State σ → Progress σ
  | [], _, received, state => .reading received state
  | turn :: rest, offset, received, state =>
    match mount.serve turn.now (.readDirectory inode offset turn.room)
        (mount.after turn.before state) with
    | (.reply (.page page), state) =>
      match page.getLast? with
      | none => .finished received state
      | some (next, _) => readPages mount inode rest next (received ++ page.map Prod.snd) state
    | _ => .failed

variable {τ : Type} [Store τ] {mount : Mount} {blockSize : UInt32} {inode : Nat} {path : String}
  {received : List DirectoryEntry} {state state' : State τ}

/-- Requests lead to a later state. -/
theorem after_later (mount : Mount) (requests : List (UInt64 × Request))
    (paired : state.inodes.Paired) : Later mount.layout state (mount.after requests state) := by
  induction requests generalizing state with
  | nil => exact .refl paired
  | cons timed rest ih =>
    obtain ⟨now, request⟩ := timed
    have hserve := serve_later mount now request paired
    rw [after_cons]
    exact hserve.trans (ih hserve.paired)

/-- What a client has received is all that there is to tell of a directory, each entry once. -/
structure Complete (layout : Layout) (path : String) (received : List DirectoryEntry)
    (state : State τ) : Prop where
  all : ∃ nodes, Volume.list layout state.store path = .ok nodes ∧
    received.map (said state.inodes) = whole path nodes
  once : (received.map (·.name)).Nodup

/-- How far a client has come, which has received `count` entries at least if it is not at the
end. -/
def Progress.Exact (layout : Layout) (path : String) (count : Nat) : Progress τ → Prop
  | .reading received state => count ≤ received.length ∧
      ∃ nodes, Volume.list layout state.store path = .ok nodes ∧
        received.map (said state.inodes) <+: whole path nodes
  | .finished received state => Complete layout path received state
  | .failed => False

theorem Progress.Exact.mono {layout : Layout} {count count' : Nat} {progress : Progress τ}
    (h : progress.Exact layout path count') (hle : count ≤ count') :
    progress.Exact layout path count := by
  cases progress with
  | reading received state => exact ⟨hle.trans h.1, h.2⟩
  | finished received state => exact h
  | failed => exact h

variable [Reliable τ]

/-- What a client has received from a directory of a volume in order is the beginning of what there
is to tell. -/
structure Underway (mount : Mount) (blockSize : UInt32) (inode : Nat) (path : String)
    (received : List DirectoryEntry) (state : State τ) : Prop where
  sound : ∃ branches, Sound mount.layout blockSize (Store.size state.store) (content state.store)
    branches
  paired : state.inodes.Paired
  path_eq : state.inodes.path? inode = some path
  told : ∃ nodes, Volume.list mount.layout state.store path = .ok nodes ∧
    received.map (said state.inodes) <+: whole path nodes

namespace Underway

/-- It stays so, whatever else is requested. -/
theorem later (underway : Underway mount blockSize inode path received state)
    (h : Later mount.layout state state') :
    Underway mount blockSize inode path received state' := by
  obtain ⟨⟨branches, sound⟩, paired, hpath, nodes, hlist, hprefix⟩ := underway
  obtain ⟨paired', hgrows, calls, hcalls⟩ := h
  obtain ⟨branches', nodes', sound', hlist', hshown⟩ := Volume.Call.runAll_list calls sound hlist
  rw [← hcalls] at sound' hlist'
  refine ⟨⟨branches', sound'⟩, paired', hgrows hpath, nodes', hlist', ?_⟩
  rw [said_of_extends hgrows hprefix]
  exact hprefix.trans (whole_mono path hshown)

/-- A page brings what comes next, and only if nothing is left it brings nothing. -/
theorem page (underway : Underway mount blockSize inode path received state) (now : UInt64)
    {room : Nat} (hroom : 280 ≤ room) :
    ∃ page state', mount.serve now (.readDirectory inode received.length room) state
        = (.reply (.page page), state') ∧
      Underway mount blockSize inode path (received ++ page.map Prod.snd) state' ∧
      (∀ last, page.getLast? = some last → last.1 = (received ++ page.map Prod.snd).length) ∧
      (page = [] → Complete mount.layout path received state') := by
  obtain ⟨⟨branches, sound⟩, paired, hpath, nodes, hlist, hprefix⟩ := underway
  obtain ⟨inodes, store⟩ := state
  obtain ⟨entries, inodes', hentries, hextends, paired', hsaid⟩ := entries_eq paired hpath hlist
  obtain ⟨hnodup, hshort⟩ := names_orderly sound.regular sound.fits sound.mapped hlist
  have hnames : entries.map (·.name) = "." :: ".." :: namesOf nodes := by
    rw [← names_said inodes', hsaid, names_whole]
  have hfits : ∀ entry ∈ entries.drop received.length, entry.replySize ≤ room := by
    intro entry hentry
    have hmem : entry.name ∈ entries.map (·.name) :=
      List.mem_map_of_mem (List.mem_of_mem_drop hentry)
    exact (DirectoryEntry.replySize_le (hshort _ (hnames ▸ hmem))).trans hroom
  have hbefore := retold hextends hprefix hsaid
  refine ⟨DirectoryEntry.page entries received.length room, State.mk inodes' store, ?served,
    ⟨⟨branches, sound⟩, paired', hextends hpath, nodes, hlist, ?told⟩, ?offset, ?last⟩
  case served =>
    simp only [serve, reply, Functor.map, EStateM.map, hentries, Int.toNat_natCast]
  case told =>
    rw [List.map_append, hbefore, ← List.map_append, ← hsaid]
    have hpage : (DirectoryEntry.page entries received.length room).map Prod.snd
        <+: entries.drop received.length := DirectoryEntry.fill_isPrefix ..
    have hboth := (List.prefix_append_right_inj (entries.take received.length)).mpr hpage
    rw [List.take_append_drop] at hboth
    exact hboth.map _
  case offset =>
    intro last hlast
    rw [DirectoryEntry.page] at hlast ⊢
    rw [DirectoryEntry.offset_of_getLast? hlast, List.length_append, List.length_map]
  case last =>
    intro hempty
    have hnone := DirectoryEntry.eq_nil_of_fill hfits hempty
    have hall : received.map (said inodes') = whole path nodes := by
      rw [hbefore, List.take_of_length_le (List.drop_eq_nil_iff.mp hnone), hsaid]
    refine ⟨⟨nodes, hlist, hall⟩, ?_⟩
    rw [← names_said inodes', hall, names_whole]
    exact hnodup

end Underway

/-- What a client receives while it reads on. -/
theorem readPages_exact (underway : Underway mount blockSize inode path received state)
    (turns : List Turn) (hroom : ∀ turn ∈ turns, 280 ≤ turn.room) :
    (readPages mount inode turns received.length received state).Exact mount.layout path
      (received.length + turns.length) := by
  induction turns generalizing received state with
  | nil => exact ⟨Nat.le_refl _, underway.told⟩
  | cons turn rest ih =>
    have underway' := underway.later (after_later mount turn.before underway.paired)
    obtain ⟨page, state', hserve, underway'', hoffset, hlast⟩ :=
      underway'.page turn.now (hroom turn (List.mem_cons_self ..))
    rw [readPages, hserve]
    dsimp only
    rcases hpage : page.getLast? with _ | ⟨next, entry⟩
    · exact hlast (List.getLast?_eq_none_iff.mp hpage)
    · obtain rfl : next = _ := hoffset _ hpage
      refine (ih underway'' fun turn' h => hroom turn' (List.mem_cons_of_mem _ h)).mono ?_
      -- a page that is not empty counts for its turn
      have hpos : 0 < page.length := List.length_pos_of_mem (List.mem_of_getLast? hpage)
      rw [List.length_append, List.length_map, List.length_cons]
      omega

/-- Reading a directory page by page loses nothing and repeats nothing. In any state of the server
of a formatted volume, a client starts to read a directory, and any requests come between its pages,
which have room for at least one entry each. Then no page is refused; once a page is empty, the
client has received the directory, its parent and the listing as of this last request, each entry
once and in the order of the listing; and every page before has brought it further there. -/
theorem pages_exact {layout : Layout} {blank formatted : τ}
    (hformat : Volume.format blockSize blank = .ok layout formatted)
    (calls : List (UInt64 × Volume.Call)) (options : Options)
    (requests : List (UInt64 × Request)) {start : State τ}
    (hstart : start = Mount.after ⟨layout, options⟩ requests
      ⟨Inodes.initial, (Volume.Call.runAll layout calls formatted).2⟩)
    {inode : Nat} {path : String} (hpath : start.inodes.path? inode = some path)
    {nodes : Array Node} (hlist : Volume.list layout start.store path = .ok nodes)
    (turns : List Turn) (hroom : ∀ turn ∈ turns, 280 ≤ turn.room) :
    (readPages ⟨layout, options⟩ inode turns 0 [] start).Exact layout path turns.length := by
  have hlater : Later layout ⟨Inodes.initial, (Volume.Call.runAll layout calls formatted).2⟩ _ :=
    after_later ⟨layout, options⟩ requests Inodes.paired_initial
  rw [← hstart] at hlater
  obtain ⟨paired, -, calls', hcalls⟩ := hlater
  -- all that was done to the volume is one run of calls
  rw [← Volume.Call.runAll_append] at hcalls
  obtain ⟨hsize, ⟨branches, sound⟩, -⟩ := Volume.sound_of_format hformat (calls ++ calls')
  rw [← hsize, ← hcalls] at sound
  have underway : Underway ⟨layout, options⟩ blockSize inode path [] start :=
    ⟨⟨branches, sound⟩, paired, hpath, nodes, hlist, List.nil_prefix⟩
  have hexact := readPages_exact underway turns hroom
  rwa [List.length_nil, Nat.zero_add] at hexact

/-- Two pages of the root, which is empty at first, with an entry made before each, and an empty
page. -/
theorem pages_exact_on_blank :
    ∃ volume : Memory, Volume.format 512 (Volume.blank 4195840) = .ok Volume.smallest volume ∧
      Volume.list Volume.smallest volume "/" = .ok #[] ∧
      (readPages ⟨Volume.smallest, ⟨true, false⟩⟩ Inodes.root
        [⟨[(6, .makeDirectory 1 "d".toUTF8)], 7, 280⟩, ⟨[(8, .createFile 1 "a".toUTF8)], 9, 300⟩,
          ⟨[], 10, 280⟩] 0 [] (State.mk Inodes.initial volume)).Exact Volume.smallest "/" 3 := by
  obtain ⟨volume, hformat⟩ := Volume.format_blank
  obtain ⟨hsize, hformatted⟩ := Volume.formatted_of_ok hformat
  rw [← hsize] at hformatted
  have hlist := hformatted.list_root
  refine ⟨volume, hformat, hlist,
    pages_exact hformat [] ⟨true, false⟩ [] rfl Inodes.paired_initial.root_eq hlist _ ?_⟩
  simp only [List.forall_mem_cons, List.not_mem_nil, false_implies, implies_true]
  exact ⟨by decide, by decide, by decide, trivial⟩

end ChainFs.Mount
