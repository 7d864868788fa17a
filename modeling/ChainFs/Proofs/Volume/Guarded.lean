import ChainFs.Proofs.Volume.Edits
import ChainFs.Store.File
import ChainFs.Volume.Call

/-!
# Edits that are checked before they write

All that a change of a volume can be rejected for is found out before its first write. From then on
only space can run out, links and addresses can be wrong, and the store can fail. What the image
holds plays no part in this, and it may be damaged in any way.

* `Error.Rejection` — the failures that reject what was asked, or what the image holds;
* `Store.Impartial` — a store whose accesses fail for other reasons;
* `Edit.Sure`, `Edit.Guarded` — edits that are not rejected, and edits that are rejected before they
  write, with the rules for their steps;
* `Volume.Call.run_guarded` — every call is guarded.

An edit that is sure may come behind anything, and one that is guarded only at the start. So the
rule for two steps has two forms, and every function of a change is shown to be sure once, from the
bitmap upwards.
-/

namespace ChainFs

open Store

/-- The failures that reject what was asked, or what the image holds. -/
def Error.Rejection : Error → Prop
  | .notFound _ | .alreadyExists _ | .invalidName _ | .nameTooLong _ | .notDirectory _
  | .isDirectory _ | .fileTooLarge | .invalidImage _ => True
  | _ => False

namespace Store

/-- A store whose accesses fail for reasons of its own. -/
class Impartial (σ : Type) [Store σ] : Prop where
  read_error : ∀ {store : σ} {offset length : Nat} {e : Error},
    Store.read store offset length = .error e → ¬ e.Rejection
  write_error : ∀ {store after : σ} {offset : Nat} {bytes : ByteArray} {e : Error},
    (Store.write offset bytes : Edit σ Unit) store = .error e after → ¬ e.Rejection

/-- A store in memory refuses an access only for where it reaches. -/
instance : Impartial Memory where
  read_error {store offset length e} h := by
    have hread : Store.read store offset length = Memory.read store offset length := rfl
    rw [hread, Memory.read] at h
    split at h
    · cases h
    · cases h
      exact id
  write_error {store after offset bytes e} h := by
    have hwrite : (Store.write offset bytes : Edit Memory Unit) store
        = Memory.write offset bytes store := rfl
    rw [hwrite, Memory.write] at h
    split at h
    · cases h
    · cases h
      exact id

/-- A file refuses an access only for where it reaches, or because the host system does. -/
instance : Impartial File where
  read_error {store offset length e} h := by
    have hread : Store.read store offset length = File.read store offset length := rfl
    rw [hread, File.read] at h
    split_ifs at h
    all_goals
      cases h
      exact id
  write_error {store after offset bytes e} h := by
    have hwrite : (Store.write offset bytes : Edit File Unit) store
        = File.write offset bytes store := rfl
    rw [hwrite, File.write] at h
    split_ifs at h
    all_goals
      cases h
      exact id

end Store

/-! ## Steps that are not rejected -/

/-- A result that is no rejection. -/
def Unrejected {α : Type} (r : Except Error α) : Prop :=
  ∀ e, r = .error e → ¬ e.Rejection

namespace Unrejected

variable {α β : Type}

/-- An answer is no rejection. -/
theorem ok (a : α) : Unrejected (.ok a) :=
  nofun

theorem error {e : Error} (h : ¬ e.Rejection) : Unrejected (.error e : Except Error α) := by
  rintro e' he
  cases he
  exact h

/-- Two results one after the other are not rejected if neither of them is. -/
theorem bind {first : Except Error α} {second : α → Except Error β} (hfirst : Unrejected first)
    (hsecond : ∀ a, Unrejected (second a)) : Unrejected (first >>= second) := by
  cases first with
  | ok a => exact hsecond a
  | error e => exact .error (hfirst e rfl)

end Unrejected

namespace Edit

variable {σ α β : Type}

/-- Whatever the store, the edit is not rejected. -/
def Sure (act : Edit σ α) : Prop :=
  ∀ store, Unrejected (act.outcome store).1

namespace Sure

theorem pure (a : α) : (Pure.pure a : Edit σ α).Sure :=
  fun _ => .ok a

theorem throw {e : Error} (h : ¬ e.Rejection) : (MonadExcept.throw e : Edit σ α).Sure :=
  fun _ => .error h

/-- A question that is never rejected. -/
theorem ask {question : σ → Except Error α} (h : ∀ store, Unrejected (question store)) :
    (Edit.ask question).Sure := by
  intro store
  rw [outcome_ask]
  exact h store

theorem ofExcept {r : Except Error α} (h : Unrejected r) : (Edit.ofExcept r : Edit σ α).Sure :=
  .ask fun _ => h

/-- A rejection can come from either step only. -/
theorem bind {first : Edit σ α} {second : α → Edit σ β} (hfirst : first.Sure)
    (hsecond : ∀ a, (second a).Sure) : (first >>= second).Sure := by
  intro store
  have hstart := hfirst store
  rw [outcome_bind]
  rcases hact : first.outcome store with ⟨e | a, after⟩
  · rw [hact] at hstart
    exact .error (hstart e rfl)
  · exact hsecond a after

/-- A write is refused by the store alone. -/
theorem write [Store σ] [Impartial σ] {offset : Nat} {bytes : ByteArray} :
    (Store.write offset bytes : Edit σ Unit).Sure := by
  intro store
  unfold Edit.outcome
  cases hact : (Store.write offset bytes : Edit σ Unit) store with
  | ok _ after => exact .ok ()
  | error e after => exact .error (Impartial.write_error hact)

end Sure

/-- The edit is rejected, if at all, before it has changed the store. -/
def Guarded (act : Edit σ α) : Prop :=
  ∀ store e, (act.outcome store).1 = .error e → e.Rejection → (act.outcome store).2 = store

namespace Guarded

/-- An edit that is not rejected at all need not be checked. -/
theorem of_sure {act : Edit σ α} (h : act.Sure) : act.Guarded :=
  fun store e he hrejection => absurd hrejection (h store e he)

theorem throw (e : Error) : (MonadExcept.throw e : Edit σ α).Guarded :=
  fun _ _ _ _ => rfl

/-- A question has not written anything, so it may be rejected. -/
theorem ask (question : σ → Except Error α) : (Edit.ask question).Guarded := by
  intro store e he hrejection
  rw [outcome_ask]

/-- A step that asks, with what is known of the answer. -/
theorem ask_bind {question : σ → Except Error α} {second : α → Edit σ β}
    (h : ∀ store a, question store = .ok a → (second a).Guarded) :
    (Edit.ask question >>= second).Guarded := by
  intro store e he hrejection
  rw [outcome_bind, outcome_ask] at he ⊢
  rcases hquestion : question store with e' | a
  · rfl
  · rw [hquestion] at he
    exact h store a hquestion store e he hrejection

/-- A check that comes first may reject, and what comes behind it only sees what has passed it. -/
theorem ofExcept_bind {r : Except Error α} {second : α → Edit σ β}
    (h : ∀ a, r = .ok a → (second a).Guarded) : (Edit.ofExcept r >>= second).Guarded :=
  .ask_bind fun _ => h

theorem map {act : Edit σ α} (h : act.Guarded) (f : α → β) : (f <$> act).Guarded := by
  intro store e he hrejection
  rw [outcome_map] at he ⊢
  rcases hresult : (act.outcome store).1 with e' | a
  · rw [hresult] at he
    cases he
    exact h store e hresult hrejection
  · rw [hresult] at he
    cases he

end Guarded

end Edit

section Steps

variable {σ : Type} [Store σ] [Impartial σ] (layout : Layout)

/-! ### Blocks and chains -/

omit layout in
theorem Store.readNumber_unrejected {width : Nat} {store : σ} {offset : Nat} :
    Unrejected (Store.readNumber width store offset) :=
  .bind (fun _ => Impartial.read_error) fun _ => .ok _

namespace Bitmap

/-- A bit is set or cleared; only the address can be wrong. -/
theorem assign_sure (address : Nat) (value : Bool) :
    (assign layout address value : Edit σ Bool).Sure := by
  refine .bind (.ofExcept ?_) fun position => .bind (.ask fun store _ => Impartial.read_error)
    fun block => .bind .write fun _ => .pure _
  unfold locate
  dsimp only
  split_ifs
  · exact .error id
  · exact .error id
  · exact .ok _

theorem nextFreeFrom_unrejected (store : σ) (i left : Nat) :
    Unrejected (nextFreeFrom layout store i left) := by
  induction left generalizing i with
  | zero => exact .error id
  | succ left ih =>
    refine .bind (fun _ => Impartial.read_error) fun block => ?_
    split
    · exact ih (i + 1)
    · dsimp only
      split
      · exact .error id
      · exact .ok _

end Bitmap

namespace Block

/-- The counter is rewritten. -/
theorem recount_sure (change : Nat → Nat) : (recount layout change : Edit σ Unit).Sure :=
  .bind (.ask fun _ => readNumber_unrejected) fun _ => .write

/-- **Taking a block** fails for lack of space, not by rejection. -/
theorem acquire_sure : (acquire layout : Edit σ Nat).Sure := by
  refine .bind (.ask fun store => Bitmap.nextFreeFrom_unrejected layout store _ _) fun address =>
    .bind (Bitmap.assign_sure layout address true) fun was => .bind .write fun _ =>
      .bind ?_ fun _ => .pure _
  unfold countAcquired
  split
  · exact .pure ()
  · exact recount_sure layout increment

end Block

namespace Chain

theorem next_unrejected (store : σ) (address : Nat) : Unrejected (next layout store address) := by
  refine .bind readNumber_unrejected fun block => ?_
  dsimp only
  split
  · exact .error id
  · exact .ok _

/-- A link is set; the number of the block it leads to may be too large for it. -/
theorem link_sure (address target : Nat) : (link layout address target : Edit σ Unit).Sure := by
  refine .bind (.ofExcept ?_) fun block => .write
  unfold Layout.blockNumber
  split
  · exact .error id
  · exact .ok _

/-- A chain goes on, or gets a new block. -/
theorem nextOrExtend_sure (address : Nat) : (nextOrExtend layout address : Edit σ Nat).Sure := by
  refine .bind (.ask fun store => next_unrejected layout store address) fun target => ?_
  split
  · exact .pure target
  · exact .bind (Block.acquire_sure layout) fun added => .bind (link_sure layout address added)
      fun _ => .pure added

theorem advance_sure (count address : Nat) : (advance layout count address : Edit σ Nat).Sure := by
  induction count generalizing address with
  | zero => exact .pure address
  | succ count ih => exact .bind (nextOrExtend_sure layout address) ih

theorem writePieces_sure (address inBlock : Nat) (pieces : List ByteArray) :
    (writePieces layout address inBlock pieces : Edit σ Unit).Sure := by
  induction pieces generalizing address inBlock with
  | nil => exact .pure ()
  | cons piece rest ih =>
    cases rest with
    | nil => exact .write
    | cons next rest =>
      rw [writePieces]
      · exact .bind .write fun _ => .bind (nextOrExtend_sure layout address) fun target =>
          ih target 0
      · exact List.cons_ne_nil next rest

/-- **A write to a chain**, wherever its links lead. -/
theorem writeRange_sure (start offset : Nat) (data : ByteArray) :
    (writeRange layout start offset data : Edit σ Unit).Sure := by
  unfold writeRange
  split
  · exact .throw id
  · split
    · exact .pure ()
    · exact .bind (advance_sure layout _ start) fun address => writePieces_sure layout address _ _

end Chain

/-! ### Directories -/

namespace Directory

omit layout in
/-- A record is rewritten; that of the root is not there, and nothing is done for it. -/
theorem updateNode_sure (node : Node) (size : UInt32) (mtime : UInt64) :
    (updateNode node size mtime : Edit σ Unit).Sure := by
  unfold updateNode
  split
  · exact .bind .write fun _ => .write
  · exact .pure ()

/-- A place for a record, or a new block for it. -/
theorem placeFor_sure (tail : Cursor) (length : Nat) :
    (placeFor layout tail length : Edit σ Nat).Sure := by
  unfold placeFor
  split
  · exact .pure _
  · exact .bind (Block.acquire_sure layout) fun added => .bind (Chain.link_sure layout _ added)
      fun _ => .pure _

/-- A valid name is not rejected when its record is written out. -/
theorem encode_unrejected {record : Record} (hvalid : validateName record.name = .ok ())
    (blockSize : Nat) : Unrejected (record.encode blockSize) := by
  have valid := validName_of_ok hvalid
  unfold Record.encode
  dsimp only
  rw [if_neg (mt String.utf8ByteSize_eq_zero_iff.mp valid.ne_empty),
    if_neg (Nat.not_lt.mpr valid.size_le)]
  split
  · exact .error id
  · exact .ok _

/-- **An entry whose name was checked** is appended without any further question about the name. -/
theorem append_sure {name : String} (hvalid : validateName name = .ok ()) (tail : Cursor)
    (kind : Kind) (mtime : UInt64) : (append layout tail name kind mtime : Edit σ Node).Sure :=
  .bind (Block.acquire_sure layout) fun _ => .bind (.ofExcept (encode_unrejected hvalid _))
    fun _ => .bind (placeFor_sure layout tail _) fun _ => .bind .write fun _ => .pure _

/-- Name, place and size of a new entry are checked before anything is written. -/
theorem create_guarded (parent : Node) (name : String) (kind : Kind) (mtime : UInt64) :
    (create layout parent name kind mtime : Edit σ Node).Guarded :=
  .ofExcept_bind fun _ hcheck => .ask_bind fun _ tail _ => .ofExcept_bind fun size _ =>
    .of_sure (.bind (updateNode_sure parent size mtime) fun _ =>
      append_sure layout (Volume.of_checkNew hcheck).1 tail kind mtime)

end Directory

/-! ### Calls -/

namespace Volume

/-- A write is rejected for what its path leads to and for the size the file would get. Both are
known before it starts. -/
theorem write_guarded (now : UInt64) (path : String) (offset : Nat) (data : ByteArray) :
    (write layout now path offset data : Edit σ Nat).Guarded := by
  refine .ask_bind fun _ node _ => ?_
  split
  · exact .throw _
  · split
    · exact .of_sure (.pure 0)
    · exact .ofExcept_bind fun size _ => .of_sure
        (.bind (Directory.updateNode_sure node size now) fun _ =>
          .bind (Chain.writeRange_sure layout _ offset data) fun _ => .pure _)

/-- An entry is rejected for its name, its directory and an entry that is there already. -/
theorem create_guarded (now : UInt64) (parent name : String) (kind : Kind) :
    (create layout now parent name kind : Edit σ Node).Guarded :=
  .ask_bind fun _ node _ => Directory.create_guarded layout node name kind now

theorem createAt_guarded (now : UInt64) (path : String) (kind : Kind) :
    (createAt layout now path kind : Edit σ Node).Guarded :=
  .ofExcept_bind fun (parent, name) _ => create_guarded layout now parent name kind

/-- A call that is rejected leaves the store as it was. -/
theorem Call.run_guarded (now : UInt64) (call : Call) :
    (call.run layout now : Edit σ Reply).Guarded := by
  cases call with
  | scan path => exact .map (.ask _) _
  | lookup path => exact .map (.ask _) _
  | list path => exact .map (.ask _) _
  | read path offset length => exact .map (.ask _) _
  | write path offset data => exact .map (write_guarded layout now path offset data) _
  | create parent name kind => exact .map (create_guarded layout now parent name kind) _
  | makeDirectory path => exact .map (createAt_guarded layout now path .directory) _
  | createFile path => exact .map (createAt_guarded layout now path .file) _
  | usage => exact .map (.ask _) _

end Volume

end Steps

end ChainFs
