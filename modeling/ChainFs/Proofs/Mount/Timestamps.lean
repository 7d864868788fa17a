import ChainFs.Proofs.Mount.Numbers
import ChainFs.Proofs.Volume.Steps

/-!
# Times that bring the server down

An mtime is read from a record as it stands there, and the times of the kernel end earlier.

The conversion of an mtime into a time of the kernel is the one step of the server that has no
answer for all its inputs. Which requests take this step, and for which node, is found by following
the work from its end: each rule below takes the first step off and says under what condition the
rest is reached. Conditions are equivalences throughout, so that no crash is overlooked.

* `Mount.Serving.Crashes` — some work brings the server down, with the rules for its steps;
* `Mount.Request.Tells` — the path whose attributes a request has told;
* `Mount.serve_down_iff` — a request brings the server down if and only if these attributes hold an
  mtime beyond the times of the kernel;
* `Mount.serve_answers` — so none does on a new volume while the clock is within them.
-/

namespace ChainFs.Mount

open Store

variable {σ : Type}

namespace Serving

variable {α β : Type}

/-- The work ends with the server going down. -/
def Crashes (act : Serving σ α) (state : State σ) : Prop :=
  ∃ mtime state', act state = .error (.timeOutOfRange mtime) state'

variable {state : State σ}

/-- **Work goes down** at its first step, or at a later one from where the first step led. -/
theorem crashes_bind {first : Serving σ α} {second : α → Serving σ β} :
    Crashes (first >>= second) state ↔
      Crashes first state ∨ ∃ a state', first state = .ok a state' ∧ Crashes (second a) state' := by
  have hbind : (first >>= second) state = EStateM.bind first second state := rfl
  unfold Crashes
  rw [hbind, EStateM.bind]
  cases first state <;> simp

/-- What is made of an answer does not matter. -/
@[simp] theorem crashes_map {act : Serving σ α} {f : α → β} :
    Crashes (f <$> act) state ↔ Crashes act state := by
  have hmap : (f <$> act) state = EStateM.map f act state := rfl
  unfold Crashes
  rw [hmap, EStateM.map]
  cases act state <;> simp

/-- An answer is no crash. -/
@[simp] theorem not_crashes_pure (a : α) : ¬ Crashes (Pure.pure a : Serving σ α) state := by
  rintro ⟨mtime, state', h⟩
  cases h

/-- A refusal is told, and the server goes on. -/
@[simp] theorem not_crashes_refuse (cause : Error) :
    ¬ Crashes (refuse cause : Serving σ α) state := by
  rintro ⟨mtime, state', h⟩
  cases h

theorem crashes_throw (mtime : UInt64) :
    Crashes (MonadExcept.throw (.timeOutOfRange mtime) : Serving σ α) state :=
  ⟨mtime, state, rfl⟩

/-- A question that fails is refused. -/
@[simp] theorem not_crashes_ask {question : σ → Except Error α} :
    ¬ Crashes (ask question) state := by
  cases hanswer : question state.store <;> simp [Crashes, ask, hanswer]

/-- A call that fails is refused. -/
@[simp] theorem not_crashes_edit {act : Edit σ α} : ¬ Crashes (edit act) state := by
  cases hact : act state.store <;> simp [Crashes, edit, hact]

/-! What a step leads on to. -/

/-- Past a result that is known. -/
@[simp] theorem crashes_ofExcept_bind {result : Except Error α} {second : α → Serving σ β} :
    Crashes (ofExcept result >>= second) state ↔
      ∃ a, result = .ok a ∧ Crashes (second a) state := by
  rw [crashes_bind]
  cases result <;> simp [Crashes, ofExcept]

/-- Past a question. -/
@[simp] theorem crashes_ask_bind {question : σ → Except Error α} {second : α → Serving σ β} :
    Crashes (ask question >>= second) state ↔
      ∃ a, question state.store = .ok a ∧ Crashes (second a) state := by
  rw [crashes_bind]
  cases hanswer : question state.store <;> simp [Crashes, ask, hanswer]

/-- Past the path of a number. -/
@[simp] theorem crashes_pathOf_bind {inode : Nat} {second : String → Serving σ β} :
    Crashes (pathOf inode >>= second) state ↔
      ∃ path, state.inodes.path? inode = some path ∧ Crashes (second path) state := by
  rw [crashes_bind]
  cases hpath : state.inodes.path? inode <;> simp [Crashes, pathOf, hpath]

/-- Past a number that was handed out. -/
@[simp] theorem crashes_inodeFor_bind {path : String} {second : Nat → Serving σ β} :
    Crashes (inodeFor path >>= second) state ↔
      Crashes (second (state.inodes.assign path).1)
        ⟨(state.inodes.assign path).2, state.store⟩ := by
  rw [crashes_bind]
  simp [Crashes, inodeFor]

/-- Past a call that has succeeded. -/
@[simp] theorem crashes_edit_bind {act : Edit σ α} {second : α → Serving σ β} :
    Crashes (edit act >>= second) state ↔ ∃ a store, act state.store = .ok a store ∧
      Crashes (second a) ⟨state.inodes, store⟩ := by
  rw [crashes_bind]
  cases hact : act state.store <;> simp [Crashes, edit, hact]

end Serving

open Serving (Crashes)

variable [Store σ] {mount : Mount} {state : State σ} {now : UInt64}

omit [Store σ] in
/-- Past the check that the volume may be changed. -/
@[simp] theorem crashes_requireWritable_bind {β : Type} {second : Unit → Serving σ β} :
    Crashes (requireWritable mount >>= second) state ↔
      mount.options.readWrite ∧ Crashes (second ()) state := by
  have hpure : (Pure.pure () : Serving σ Unit) state = .ok () state := rfl
  have hrefuse : (Serving.refuse .readOnly : Serving σ Unit) state
      = .error (.refused .readOnly) state := rfl
  rw [Serving.crashes_bind]
  cases h : mount.options.readWrite <;>
    simp [Crashes, requireWritable, hpure, hrefuse, h, Unique.exists_iff]

/-! ## Requests -/

/-- The attributes of what a path leads to cannot be told if its mtime is no time of the kernel. -/
theorem crashes_attributesAt {path : String} :
    Crashes (attributesAt mount path) state ↔ ∃ stat,
      Volume.lookup mount.layout state.store path = .ok stat ∧
        Attributes.timeLimit ≤ stat.mtime.toNat := by
  unfold attributesAt
  simp only [Serving.crashes_ask_bind, Serving.crashes_inodeFor_bind]
  refine exists_congr fun stat => and_congr_right fun _ => ?_
  unfold Attributes.ofStat?
  by_cases h : stat.mtime.toNat < Attributes.timeLimit
  · simp only [if_pos h, Serving.not_crashes_pure, false_iff, not_le]
    exact h
  · simp only [if_neg h]
    exact iff_of_true (Serving.crashes_throw _) (Nat.le_of_not_lt h)

/-- Attributes of a number are those of its path. -/
theorem crashes_attributesOf {inode : Nat} :
    Crashes (attributesOf mount inode) state ↔ ∃ path, state.inodes.path? inode = some path ∧
      Crashes (attributesAt mount path) state := by
  simp only [attributesOf, Serving.crashes_pathOf_bind]

/-- A lookup crashes with the attributes of what it finds. -/
theorem crashes_lookup {parent : Nat} {name : ByteArray} :
    Crashes (lookup mount parent name) state ↔ ∃ directory,
      state.inodes.path? parent = some directory ∧ ∃ text, decodeName name = .ok text ∧
        Crashes (attributesAt mount (Path.child directory text)) state := by
  simp only [lookup, Serving.crashes_pathOf_bind, Serving.crashes_ofExcept_bind]

/-- Whatever size is asked for, only the attributes that are told can crash. -/
theorem crashes_setAttributes {inode : Nat} {size? : Option Nat} :
    Crashes (setAttributes mount inode size?) state ↔
      Crashes (attributesOf mount inode) state := by
  unfold setAttributes
  rw [Serving.crashes_bind]
  refine or_iff_left ?_
  rintro ⟨attributes, state', -, h⟩
  split at h
  · exact Serving.not_crashes_pure _ h
  · simp at h

/-- A new entry crashes behind the call that made it, with the attributes of what that path leads
to. -/
theorem crashes_create {parent : Nat} {name : ByteArray} {kind : Kind} :
    Crashes (create mount now parent name kind) state ↔ mount.options.readWrite ∧
      ∃ directory, state.inodes.path? parent = some directory ∧
        ∃ text, decodeName name = .ok text ∧ ∃ node store,
          Volume.create mount.layout now directory text kind state.store = .ok node store ∧
            Crashes (attributesAt mount (Path.child directory text)) ⟨state.inodes, store⟩ := by
  simp only [create, crashes_requireWritable_bind, Serving.crashes_pathOf_bind,
    Serving.crashes_ofExcept_bind, Serving.crashes_edit_bind]

/-- Opening a file tells no times. -/
theorem not_crashes_openFile {inode : Nat} {flags : Int} :
    ¬ Crashes (openFile mount inode flags) state := by
  simp only [openFile, Serving.crashes_pathOf_bind, Serving.crashes_ask_bind, not_exists, not_and]
  intro path _ stat _
  split
  · exact Serving.not_crashes_refuse _
  · split
    · unfold requireWritable
      split
      · exact Serving.not_crashes_pure _
      · exact Serving.not_crashes_refuse _
    · exact Serving.not_crashes_pure _

theorem not_crashes_openDirectory {inode : Nat} :
    ¬ Crashes (openDirectory mount inode) state := by
  simp only [openDirectory, Serving.crashes_pathOf_bind, Serving.crashes_ask_bind, not_exists,
    not_and]
  intro path _ stat _
  split
  · exact Serving.not_crashes_pure _
  · exact Serving.not_crashes_refuse _

omit [Store σ] in
/-- A page tells names, numbers and kinds, and no times. -/
theorem not_crashes_childEntries (path : String) (nodes : List Node) :
    ¬ Crashes (childEntries path nodes) state := by
  induction nodes generalizing state with
  | nil => exact Serving.not_crashes_pure _
  | cons node rest ih =>
    rw [childEntries, Serving.crashes_inodeFor_bind, Serving.crashes_bind]
    rintro (h | ⟨entries, state', -, h⟩)
    · exact ih h
    · exact Serving.not_crashes_pure _ h

theorem not_crashes_entries {inode : Nat} : ¬ Crashes (entries mount inode) state := by
  simp only [entries, Serving.crashes_pathOf_bind, Serving.crashes_ask_bind,
    Serving.crashes_inodeFor_bind, not_exists, not_and]
  intro path _ nodes _
  rw [Serving.crashes_bind]
  rintro (h | ⟨children, state', -, h⟩)
  · exact not_crashes_childEntries _ _ h
  · exact Serving.not_crashes_pure _ h

/-! ## What brings the server down -/

/-- The parent, and the name and the kind of the entry that a request creates. -/
def Request.creation : Request → Option (Nat × ByteArray × Kind)
  | .makeDirectory parent name => some (parent, name, .directory)
  | .createFile parent name => some (parent, name, .file)
  | _ => none

/-- A request has the attributes told of what a path leads to, in the store as it is by then. -/
inductive Request.Tells (mount : Mount) (now : UInt64) (state : State σ) :
    Request → String → σ → Prop
  | lookup {parent : Nat} {name : ByteArray} {directory text : String}
      (hpath : state.inodes.path? parent = some directory) (hname : decodeName name = .ok text) :
    Tells mount now state (.lookup parent name) (Path.child directory text) state.store
  | getAttributes {inode : Nat} {path : String} (hpath : state.inodes.path? inode = some path) :
    Tells mount now state (.getAttributes inode) path state.store
  | setAttributes {inode : Nat} {size? : Option Nat} {path : String}
      (hpath : state.inodes.path? inode = some path) :
    Tells mount now state (.setAttributes inode size?) path state.store
  /-- An entry was created; its attributes are those that it has from then on. -/
  | created {request : Request} {parent : Nat} {name : ByteArray} {kind : Kind}
      {directory text : String} {node : Node} {store : σ}
      (hrequest : request.creation = some (parent, name, kind))
      (hwritable : mount.options.readWrite)
      (hpath : state.inodes.path? parent = some directory) (hname : decodeName name = .ok text)
      (hcreate : Volume.create mount.layout now directory text kind state.store = .ok node store) :
    Tells mount now state request (Path.child directory text) store

/-- A request that creates an entry has its attributes told. -/
theorem exists_tells_of_create {request : Request} {parent : Nat} {name : ByteArray} {kind : Kind}
    (hrequest : request.creation = some (parent, name, kind))
    (h : Crashes (create mount now parent name kind) state) :
    ∃ path store, request.Tells mount now state path store ∧
      Crashes (attributesAt mount path) ⟨state.inodes, store⟩ := by
  obtain ⟨hwritable, directory, hpath, text, hname, node, store, hcreate, h⟩ := crashes_create.mp h
  exact ⟨_, store, .created hrequest hwritable hpath hname hcreate, h⟩

/-- The work on a request brings the server down over attributes that it has told. -/
theorem crashes_reply {request : Request} : Crashes (mount.reply now request) state ↔
    ∃ path store, request.Tells mount now state path store ∧
      Crashes (attributesAt mount path) ⟨state.inodes, store⟩ := by
  constructor
  · intro h
    cases request with
    | lookup parent name =>
      obtain ⟨directory, hpath, text, hname, h⟩ := crashes_lookup.mp (Serving.crashes_map.mp h)
      exact ⟨_, _, .lookup hpath hname, h⟩
    | getAttributes inode =>
      obtain ⟨path, hpath, h⟩ := crashes_attributesOf.mp (Serving.crashes_map.mp h)
      exact ⟨path, _, .getAttributes hpath, h⟩
    | setAttributes inode size? =>
      obtain ⟨path, hpath, h⟩ :=
        crashes_attributesOf.mp (crashes_setAttributes.mp (Serving.crashes_map.mp h))
      exact ⟨path, _, .setAttributes hpath, h⟩
    | makeDirectory parent name => exact exists_tells_of_create rfl (Serving.crashes_map.mp h)
    | createFile parent name => exact exists_tells_of_create rfl (Serving.crashes_map.mp h)
    | openFile => exact absurd (Serving.crashes_map.mp h) not_crashes_openFile
    | openDirectory => exact absurd (Serving.crashes_map.mp h) not_crashes_openDirectory
    | readDirectory => exact absurd (Serving.crashes_map.mp h) not_crashes_entries
    | read => simp [reply, read] at h
    | write => simp [reply, write] at h
    | statistics => simp [reply] at h
  · rintro ⟨path, store, htells, h⟩
    cases htells with
    | lookup hpath hname =>
      exact Serving.crashes_map.mpr (crashes_lookup.mpr ⟨_, hpath, _, hname, h⟩)
    | getAttributes hpath =>
      exact Serving.crashes_map.mpr (crashes_attributesOf.mpr ⟨_, hpath, h⟩)
    | setAttributes hpath =>
      exact Serving.crashes_map.mpr
        (crashes_setAttributes.mpr (crashes_attributesOf.mpr ⟨_, hpath, h⟩))
    | created hrequest hwritable hpath hname hcreate =>
      have hcrashes := crashes_create.mpr ⟨hwritable, _, hpath, _, hname, _, _, hcreate, h⟩
      cases request with
      | makeDirectory | createFile =>
        obtain ⟨rfl, rfl, rfl⟩ : _ ∧ _ ∧ _ := by simpa [Request.creation] using hrequest
        exact Serving.crashes_map.mpr hcrashes
      | _ => cases hrequest

/-- The server is down exactly where the work for the reply crashes. -/
theorem serverDown_iff {request : Request} :
    (mount.serve now request state).1 = .serverDown ↔ Crashes (mount.reply now request) state := by
  unfold serve Crashes
  cases mount.reply now request state with
  | ok => simp
  | error failure => cases failure <;> simp

/-- A request is answered unless it has attributes told whose mtime is beyond the times of the
kernel. -/
theorem serve_down_iff (mount : Mount) (now : UInt64) (request : Request) (state : State σ) :
    (mount.serve now request state).1 = .serverDown ↔ ∃ path store stat,
      request.Tells mount now state path store ∧
        Volume.lookup mount.layout store path = .ok stat ∧
          Attributes.timeLimit ≤ stat.mtime.toNat := by
  rw [serverDown_iff, crashes_reply]
  refine exists_congr fun path => exists_congr fun store => ?_
  rw [crashes_attributesAt, exists_and_left]

/-- An image can be opened and mounted, and to look a name up brings the server down. -/
theorem stored_time_downs_server :
    ∃ image : Memory, Volume.load image 512 = .ok Volume.smallest ∧
      ((Mount.mk Volume.smallest ⟨false, false⟩).serve 0 (.lookup 1 "f".toUTF8)
        ⟨Inodes.initial, image⟩).1 = .serverDown := by
  obtain ⟨volume, hformat⟩ := Volume.format_blank
  have formatted := Volume.formatted_of_format hformat
  obtain ⟨branches, step, sound⟩ :=
    Volume.Call.outcome_step formatted.sound (UInt64.ofNat Attributes.timeLimit) (.createFile "/f")
  obtain ⟨b, place, rfl, -⟩ := step.of_first_creation formatted
    (show (Volume.Call.createFile "/f").creation = some ("/", "f", .file) by decide +kernel)
    (by decide +kernel) (by decide +kernel)
  obtain ⟨regular, fits, sealed, -⟩ := sound.toTallied
  have hcomponents : Path.components "/f" = ["f"] := by decide +kernel
  have hlookup := Volume.lookup_eq regular fits sound.mapped
    ((congrArg _ hcomponents).trans (Function.update_self ..))
  have hlate : Attributes.timeLimit ≤ (UInt64.ofNat Attributes.timeLimit).toNat := by decide
  refine ⟨_, sealed.load_eq regular fits, serverDown_iff.mpr (Serving.crashes_map.mpr ?_)⟩
  refine crashes_lookup.mpr ⟨"/", Inodes.paired_initial.root_eq, "f", by decide +kernel, ?_⟩
  exact crashes_attributesAt.mpr ⟨_, hlookup, hlate⟩

/-! ## Clocks within the times of the kernel -/

section Reliable

variable {τ : Type} [Store τ] [Reliable τ] {blockSize : UInt32} {times : List UInt64}
  {state : State τ} {branches : Volume.Branches}

/-- Creating an entry leaves the volume in order that attributes are then told of. -/
theorem Charted.of_tells (charted : Charted mount.layout blockSize times state branches)
    (hnow : now ∈ times) {request : Request} {path : String} {store : τ}
    (htells : request.Tells mount now state path store) :
    ∃ branches', Charted mount.layout blockSize times ⟨state.inodes, store⟩ branches' := by
  cases htells with
  | lookup | getAttributes | setAttributes => exact ⟨branches, charted⟩
  | @created _ _ _ kind directory text node _ _ _ _ _ hcreate =>
    have hleads : Serving.Leads _ _ _ (Serving.edit _) _ _ fun _ _ _ => True :=
      .edit charted (Volume.create_settled charted.sound.standing now directory text kind)
        (Volume.create_dated charted.sound charted.dated hnow directory text kind)
        fun _ _ _ => trivial
    have hedit : Serving.edit (Volume.create mount.layout now directory text kind) state
        = .ok node ⟨state.inodes, store⟩ := by
      simp only [Serving.edit, hcreate]
    unfold Serving.Leads at hleads
    rw [hedit] at hleads
    obtain ⟨branches', charted', -⟩ := hleads
    exact ⟨branches', charted'⟩

/-- What is looked up has one of the times, or it is the root, which has none. -/
theorem Charted.mtime_lt (charted : Charted mount.layout blockSize times state branches)
    (htimes : ∀ time ∈ times, time.toNat < Attributes.timeLimit) {path : String} {stat : Stat}
    (hlookup : Volume.lookup mount.layout state.store path = .ok stat) :
    stat.mtime.toNat < Attributes.timeLimit := by
  obtain ⟨⟨regular, fits, -, -⟩, mapped⟩ := charted.sound
  rcases h : branches (Path.components path) with _ | branch
  · rw [(Volume.question_error regular fits mapped h).1] at hlookup
    cases hlookup
  rw [Volume.lookup_eq regular fits mapped h] at hlookup
  obtain rfl := Except.ok.inj hlookup
  by_cases hrecord : branch.node.recordAddress = none
  · rw [(mapped.eq_nil_iff h).mpr hrecord] at h
    have hzero : (0 : UInt64).toNat < Attributes.timeLimit := by decide
    rw [mapped.node_root h]
    exact hzero
  · exact htimes _ (charted.dated _ _ h hrecord)

/-- While the clock is within the times of the kernel, a request on a volume that was never written
to otherwise is answered. -/
theorem Charted.answered (charted : Charted mount.layout blockSize times state branches)
    (htimes : ∀ time ∈ times, time.toNat < Attributes.timeLimit) (hnow : now ∈ times)
    (request : Request) : (mount.serve now request state).1 ≠ .serverDown := by
  intro hdown
  obtain ⟨path, store, htells, hcrashes⟩ := crashes_reply.mp (serverDown_iff.mp hdown)
  obtain ⟨stat, hlookup, hle⟩ := crashes_attributesAt.mp hcrashes
  obtain ⟨branches', charted'⟩ := charted.of_tells hnow htells
  exact absurd hle (Nat.not_le.mpr (charted'.mtime_lt htimes hlookup))

/-- A mounted volume that was formatted and written to by calls and requests only goes on answering
while the clock is within the times of the kernel. -/
theorem serve_answers {layout : Layout} {blank formatted : τ}
    (hformat : Volume.format blockSize blank = .ok layout formatted)
    (calls : List (UInt64 × Volume.Call)) (options : Options)
    (requests : List (UInt64 × Request)) (hplain : ∀ timed ∈ requests, timed.2.Plain)
    {now : UInt64} (request : Request)
    (htimes : ∀ time ∈ calls.map Prod.fst ++ (requests.map Prod.fst ++ [now]),
      time.toNat < Attributes.timeLimit) :
    ((Mount.mk layout options).serve now request ((Mount.mk layout options).after requests
      ⟨Inodes.initial, (Volume.Call.runAll layout calls formatted).2⟩)).1 ≠ .serverDown := by
  have sound := (Volume.formatted_of_format hformat).sound
  obtain ⟨branches, sound', dated⟩ := Volume.Call.runAll_dated calls sound
    (Volume.dated_rootOnly layout _) (List.subset_append_left _ (requests.map Prod.fst ++ [now]))
  generalize hmount : Mount.mk layout options = mount
  obtain rfl : mount.layout = layout := hmount ▸ rfl
  obtain ⟨branches', charted, -⟩ := after_charted (charted_initial sound' dated) requests
    fun timed h => ⟨by simpa using .inr (.inl ⟨_, h⟩), hplain timed h⟩
  exact charted.answered htimes (by simp) request

end Reliable

end ChainFs.Mount
