import ChainFs.Mount.Server
import ChainFs.Proofs.Mount.Inodes
import ChainFs.Proofs.Volume.Runs

/-!
# What requests do to a mounted volume

Whatever the server does to the volume, it does through the calls of an open volume, and so all that
is known of calls holds between any two requests. On a volume that is mounted for reading it does
not even make calls.

* `Mount.Serving.Moves` — some work leads from every state to one that is related to it, whether or
  not it succeeds, with the rules for its steps;
* `Mount.reply_moves` — so does every request, if handing out numbers does, and also making calls
  unless the volume is mounted for reading;
* `Mount.Later` — from a state to a later one, numbers were handed out and calls were made;
* `Mount.serve_later` — every request leads to a later state, whatever it asks for.

The relation is a parameter, so that each question about requests picks its own: equality of what is
stored, that numbers are kept, or that calls were made. Every handler is gone through once, for all
of them.
-/

namespace ChainFs

namespace Volume

/-- Calls after other calls. -/
theorem Call.runAll_append {σ : Type} [Store σ] (layout : Layout)
    (calls calls' : List (UInt64 × Call)) (store : σ) :
    (Call.runAll layout (calls ++ calls') store).2
      = (Call.runAll layout calls' (Call.runAll layout calls store).2).2 := by
  induction calls generalizing store with
  | nil => rfl
  | cons timed rest ih =>
    obtain ⟨now, call⟩ := timed
    rw [List.cons_append, Call.runAll_cons, Call.runAll_cons]
    exact ih _

end Volume

namespace Mount

/-! ## Work on a request -/

/-- A relation between an earlier and a later state that handing out numbers respects. -/
class Passage {σ : Type} (R : State σ → State σ → Prop) : Prop where
  refl : ∀ state, R state state
  trans : ∀ {state state' state''}, R state state' → R state' state'' → R state state''
  assign : ∀ state path, R state ⟨(state.inodes.assign path).2, state.store⟩

namespace Serving

variable {σ α β : Type}

/-- The state that some work leaves. -/
def left (act : Serving σ α) (state : State σ) : State σ :=
  match act state with
  | .ok _ state' | .error _ state' => state'

/-- Every state is related to the one that the work leaves. -/
def Moves (R : State σ → State σ → Prop) (act : Serving σ α) : Prop :=
  ∀ state, R state (act.left state)

namespace Moves

variable {R : State σ → State σ → Prop} [Passage R]

/-- Work that leaves the state as it is. -/
theorem of_left_eq {act : Serving σ α} (h : ∀ state, act.left state = state) : Moves R act := by
  intro state
  rw [h]
  exact Passage.refl state

theorem pure (a : α) : Moves R (Pure.pure a : Serving σ α) :=
  .of_left_eq fun _ => rfl

theorem throw (failure : Failure) : Moves R (MonadExcept.throw failure : Serving σ α) :=
  .of_left_eq fun _ => rfl

/-- A result that was known before does not move anything. -/
theorem ofExcept (result : Except Error α) : Moves R (Serving.ofExcept result : Serving σ α) := by
  refine .of_left_eq fun state => ?_
  unfold left Serving.ofExcept
  cases result <;> rfl

/-- A question is answered from the store as it is. -/
theorem ask (question : σ → Except Error α) : Moves R (Serving.ask question) := by
  refine .of_left_eq fun state => ?_
  unfold left Serving.ask
  cases question state.store <;> rfl

/-- A number is looked up in the table as it is. -/
theorem pathOf (inode : Nat) : Moves R (Serving.pathOf inode : Serving σ String) := by
  refine .of_left_eq fun state => ?_
  unfold left Serving.pathOf
  cases state.inodes.path? inode <;> rfl

/-- Handing out a number is one of the steps that are allowed. -/
theorem inodeFor (path : String) : Moves R (Serving.inodeFor path : Serving σ Nat) :=
  fun state => Passage.assign state path

omit [Passage R] in
/-- A change that is a call of the volume. -/
theorem edit [Store σ] {layout : Layout} {now : UInt64} (call : Volume.Call) {act : Edit σ α}
    {answer : α → Volume.Reply} (h : call.run layout now = answer <$> act)
    (hcall : ∀ state : State σ,
      R state ⟨state.inodes, ((call.run layout now).outcome state.store).2⟩) :
    Moves R (Serving.edit act) := by
  intro state
  have hleft : (Serving.edit act).left state
      = ⟨state.inodes, ((call.run layout now).outcome state.store).2⟩ := by
    rw [h, Edit.outcome_map]
    unfold left Serving.edit Edit.outcome
    dsimp only
    cases act state.store <;> rfl
  rw [hleft]
  exact hcall state

/-- Steps follow each other by transitivity; a step that fails ends the work where it is. -/
theorem bind {first : Serving σ α} {second : α → Serving σ β} (hfirst : Moves R first)
    (hsecond : ∀ a, Moves R (second a)) : Moves R (first >>= second) := by
  intro state
  have hstart := hfirst state
  change R state (left (EStateM.bind first second) state)
  unfold left EStateM.bind
  unfold left at hstart
  cases hact : first state with
  | ok a state' =>
    rw [hact] at hstart
    exact Passage.trans hstart (hsecond a state')
  | error failure state' =>
    rw [hact] at hstart
    exact hstart

theorem map {act : Serving σ α} (h : Moves R act) (f : α → β) : Moves R (f <$> act) := by
  rw [map_eq_pure_bind]
  exact h.bind fun a => .pure (f a)

theorem requireWritable (mount : Mount) :
    Moves R (Mount.requireWritable mount : Serving σ Unit) := by
  unfold Mount.requireWritable
  split
  · exact .pure ()
  · exact .throw _

/-- On a volume that is mounted for reading nothing comes after the check. -/
theorem requireWritable_bind {mount : Mount} {second : Unit → Serving σ β}
    (h : mount.options.readWrite → Moves R (second ())) :
    Moves R (Mount.requireWritable mount >>= second) := by
  by_cases hwritable : mount.options.readWrite
  · exact (requireWritable mount).bind fun _ => h hwritable
  · have hrefused : (Mount.requireWritable mount >>= second) = refuse .readOnly := by
      unfold Mount.requireWritable
      rw [if_neg hwritable]
      rfl
    rw [hrefused]
    exact .throw _

end Moves

end Serving

/-! ## Requests -/

section Operations

open Serving (Moves)

variable {σ : Type} [Store σ] {R : State σ → State σ → Prop} [Passage R] (mount : Mount)

/-- Attributes are told with a number, which may be a new one. -/
theorem attributesAt_moves (path : String) :
    Moves R (attributesAt mount path : Serving σ Attributes) := by
  refine .bind (.ask _) fun stat => .bind (.inodeFor path) fun inode => ?_
  split
  · exact .pure _
  · exact .throw _

theorem attributesOf_moves (inode : Nat) :
    Moves R (attributesOf mount inode : Serving σ Attributes) :=
  .bind (.pathOf inode) (attributesAt_moves mount)

/-- A lookup asks for attributes at the path it spells out. -/
theorem lookup_moves (parent : Nat) (name : ByteArray) :
    Moves R (lookup mount parent name : Serving σ Attributes) :=
  .bind (.pathOf parent) fun _ => .bind (.ofExcept _) fun _ => attributesAt_moves mount _

/-- A size can only be set to what it is. -/
theorem setAttributes_moves (inode : Nat) (size? : Option Nat) :
    Moves R (setAttributes mount inode size? : Serving σ Attributes) := by
  refine .bind (attributesOf_moves mount inode) fun attributes => ?_
  split
  · exact .pure _
  · exact .bind (.requireWritable mount) fun _ => .throw _

theorem openFile_moves (inode : Nat) (flags : Int) :
    Moves R (openFile mount inode flags : Serving σ Unit) := by
  refine .bind (.pathOf inode) fun path => .bind (.ask _) fun stat => ?_
  split
  · exact .throw _
  · split
    · exact .requireWritable mount
    · exact .pure ()

theorem openDirectory_moves (inode : Nat) :
    Moves R (openDirectory mount inode : Serving σ Unit) := by
  refine .bind (.pathOf inode) fun path => .bind (.ask _) fun stat => ?_
  split
  · exact .pure ()
  · exact .throw _

theorem read_moves (inode : Nat) (offset : Int) (length : Nat) :
    Moves R (read mount inode offset length : Serving σ ByteArray) :=
  .bind (.ofExcept _) fun _ => .bind (.pathOf inode) fun _ => .ask _

omit [Store σ] in
/-- The entries of a listing get their numbers one after the other. -/
theorem childEntries_moves (path : String) (nodes : List Node) :
    Moves R (childEntries path nodes : Serving σ (List DirectoryEntry)) := by
  induction nodes with
  | nil => exact .pure []
  | cons node rest ih => exact .bind (.inodeFor _) fun _ => .bind ih fun _ => .pure _

theorem entries_moves (inode : Nat) :
    Moves R (entries mount inode : Serving σ (List DirectoryEntry)) :=
  .bind (.pathOf inode) fun path => .bind (.ask _) fun nodes => .bind (.inodeFor _) fun _ =>
    .bind (childEntries_moves path nodes.toList) fun _ => .pure _

variable {mount} {now : UInt64}
  (hcall : mount.options.readWrite → ∀ (state : State σ) (call : Volume.Call),
    R state ⟨state.inodes, ((call.run mount.layout now).outcome state.store).2⟩)

include hcall

/-- A write is one call, behind a check that the volume may be changed. -/
theorem write_moves (inode : Nat) (offset : Int) (data : ByteArray) :
    Moves R (write mount now inode offset data : Serving σ Nat) :=
  .requireWritable_bind fun hwritable => .bind (.ofExcept _) fun offset =>
    .bind (.pathOf inode) fun path =>
      .edit (.write path offset data) rfl fun state => hcall hwritable state _

/-- A new entry is one call, and then attributes are told. -/
theorem create_moves (parent : Nat) (name : ByteArray) (kind : Kind) :
    Moves R (create mount now parent name kind : Serving σ Attributes) :=
  .requireWritable_bind fun hwritable => .bind (.pathOf parent) fun path =>
    .bind (.ofExcept _) fun name =>
      .bind (.edit (.create path name kind) rfl fun state => hcall hwritable state _)
        fun _ => attributesAt_moves mount _

/-- **Every request** is made of these steps. -/
theorem reply_moves (request : Request) :
    Moves R (reply mount now request : Serving σ Reply) := by
  cases request with
  | lookup parent name => exact (lookup_moves mount parent name).map _
  | getAttributes inode => exact (attributesOf_moves mount inode).map _
  | setAttributes inode size? => exact (setAttributes_moves mount inode size?).map _
  | openFile inode flags => exact (openFile_moves mount inode flags).map _
  | openDirectory inode => exact (openDirectory_moves mount inode).map _
  | read inode offset length => exact (read_moves mount inode offset length).map _
  | readDirectory inode offset room => exact (entries_moves mount inode).map _
  | write inode offset data => exact (write_moves hcall inode offset data).map _
  | makeDirectory parent name => exact (create_moves hcall parent name .directory).map _
  | createFile parent name => exact (create_moves hcall parent name .file).map _
  | statistics => exact (Moves.ask _).map _

/-- Every request leads to a state that is related to the one before it, whatever its answer. -/
theorem serve_moves (request : Request) (state : State σ) :
    R state (mount.serve now request state).2 := by
  have hserve : (mount.serve now request state).2 = (reply mount now request).left state := by
    unfold serve Serving.left
    cases reply mount now request state with
    | ok reply state' => rfl
    | error failure state' => cases failure <;> rfl
  rw [hserve]
  exact reply_moves hcall request state

end Operations

/-! ## Later states -/

variable {τ : Type} [Store τ] {layout : Layout} {state state' state'' : State τ}

/-- From one state to a later one: numbers keep their paths, and calls were made of the volume. -/
structure Later (layout : Layout) (state state' : State τ) : Prop where
  paired : state'.inodes.Paired
  grows : state.inodes.Extends state'.inodes
  calls : ∃ calls, state'.store = (Volume.Call.runAll layout calls state.store).2

theorem Later.refl (paired : state.inodes.Paired) : Later layout state state :=
  ⟨paired, .refl _, [], rfl⟩

/-- A state that is later than a later one is later. -/
theorem Later.trans (h : Later layout state state') (h' : Later layout state' state'') :
    Later layout state state'' := by
  obtain ⟨calls, hcalls⟩ := h.calls
  obtain ⟨calls', hcalls'⟩ := h'.calls
  refine ⟨h'.paired, h.grows.trans h'.grows, calls ++ calls', ?_⟩
  rw [Volume.Call.runAll_append, ← hcalls, hcalls']

/-- What requests do, from a table of numbers in order on. -/
instance : Passage fun state state' : State τ => state.inodes.Paired → Later layout state state'
    where
  refl _ paired := .refl paired
  trans h h' paired := (h paired).trans (h' (h paired).paired)
  assign state path paired := by
    obtain ⟨-, hextends, hpaired, -⟩ := Inodes.assign_spec paired path
    exact ⟨hpaired, hextends, [], rfl⟩

/-- Every request leads to a later state, whatever its answer. -/
theorem serve_later (mount : Mount) (now : UInt64) (request : Request)
    (paired : state.inodes.Paired) :
    Later mount.layout state (mount.serve now request state).2 := by
  refine serve_moves (R := fun state state' => state.inodes.Paired →
    Later mount.layout state state') (fun _ state call paired => ?_) request state paired
  exact ⟨paired, .refl _, [(now, call)], by rw [Volume.Call.runAll_cons]; rfl⟩

end Mount

end ChainFs
