import ChainFs.Proofs.Volume.Edits
import ChainFs.Proofs.Volume.Format
import ChainFs.Volume.Call

/-!
# Runs of calls

The invariant of a run is kept in two strengths. A store whose writes do not fail goes from one
sound volume to the next, and the count in the superblock stays exact. A call that is cut off may
leave a block uncounted, and from then on only the weaker invariant holds, on which paths still lead
where they should. The step for each call is shown once, in `Volume.Settled`, for both.

* `Volume.Sound` — a volume in order: it opens with its layout, it holds branches, and the
  superblock counts exactly the blocks in use;
* `Volume.Standing` — what of this is left to rely on when a call was cut off;
* `Volume.Call.run_ends` — a call keeps a volume in order, whether it succeeds or fails; if it is
  cut off, it has changed no more than one branch;
* `Volume.Call.runAll_sound` — so does any run of calls on a store whose writes do not fail.
-/

namespace ChainFs

/-- The failures that speak of a damaged volume or a failing store. -/
def Error.Damage : Error → Prop
  | .io _ | .invalidImage _ | .invalidAddress _ | .invalidEncoding _ => True
  | _ => False

theorem Error.Refusal.not_damage {e : Error} (h : e.Refusal) : ¬ e.Damage := by
  cases e <;> first | exact id | exact absurd h id

namespace Volume

open Store Bitmap Chain Directory

variable {σ : Type} [Store σ] [Faithful σ] {layout : Layout} {m m' : Content} {size : Nat}
  {blockSize : UInt32} {branches branches' : Branches}

/-- A volume that opens with its layout and whose superblock counts exactly the blocks in use. -/
structure Tallied (layout : Layout) (blockSize : UInt32) (size : Nat) (m : Content) : Prop where
  regular : layout.Regular
  fits : layout.endAddress ≤ size
  sealed : Sealed layout blockSize m
  counted : Block.counter layout m = (marked layout m).card

/-- A volume on which paths lead where they should, whatever its superblock says. -/
structure Standing (layout : Layout) (size : Nat) (m : Content) (branches : Branches) : Prop where
  regular : layout.Regular
  fits : layout.endAddress ≤ size
  mapped : Mapped layout m branches

/-- A volume in order. -/
structure Sound (layout : Layout) (blockSize : UInt32) (size : Nat) (m : Content)
    (branches : Branches) : Prop extends Tallied layout blockSize size m where
  mapped : Mapped layout m branches

theorem Sound.standing (sound : Sound layout blockSize size m branches) :
    Standing layout size m branches :=
  ⟨sound.regular, sound.fits, sound.mapped⟩

theorem Formatted.sound (formatted : Formatted layout blockSize size m) :
    Sound layout blockSize size m (rootOnly layout) where
  regular := formatted.regular
  fits := formatted.fits
  sealed := formatted.sealed
  counted := by
    rw [formatted.counter_eq, formatted.marked_eq]
    rfl
  mapped := formatted.mapped

/-- Growth that counts all the blocks it takes keeps the count exact. -/
theorem Tallied.of_growth (tallied : Tallied layout blockSize size m) {touched taken : List Nat}
    (growth : Growth layout m touched taken taken.length m') :
    Tallied layout blockSize size m' where
  regular := tallied.regular
  fits := tallied.fits
  sealed := tallied.sealed.of_growth tallied.regular growth
  counted := growth.counter_exact tallied.regular tallied.counted

/-- An edit that counts all the blocks it takes keeps a volume in order. -/
theorem Sound.of_evolved (sound : Sound layout blockSize size m branches)
    {target news : List String} {taken : List Nat}
    (evolved : Evolved layout m branches target news taken taken.length m' branches') :
    Sound layout blockSize size m' branches' := by
  obtain ⟨touched, growth⟩ := evolved.growth
  exact ⟨sound.toTallied.of_growth growth, evolved.mapped⟩

/-- The directory and the name of a new entry, if its path has such parts. -/
def parts (path : String) : List String × List String :=
  match Path.splitLast path with
  | .ok (parent, name) => (Path.components parent, [name])
  | .error _ => ([], [])

namespace Call

/-- The path of the branch that a call works on. -/
def target : Call → List String
  | .write path _ _ => Path.components path
  | .create parent _ _ => Path.components parent
  | .makeDirectory path | .createFile path => (parts path).1
  | _ => []

/-- The name of the entry that a call creates. -/
def news : Call → List String
  | .create _ name _ => [name]
  | .makeDirectory path | .createFile path => (parts path).2
  | _ => []

end Call

/-- How a change of a branch may end: it keeps the volume in order and either adds all the entries
or none, or it is cut off. -/
def Settled (σ : Type) [Store σ] [Faithful σ] {α : Type} (layout : Layout) (m : Content)
    (branches : Branches) (target news : List String) (r : Except Error α) (m' : Content) : Prop :=
  (∃ news' taken branches',
    Evolved layout m branches target news' taken taken.length m' branches' ∧
    (news' = [] ∨ news' = news) ∧ ∀ e, r = .error e → ¬ e.Damage) ∨
  ∃ e, r = .error e ∧ Fault σ e ∧ Cut layout m branches target m'

theorem Settled.refl (mapped : Mapped layout m branches) (target news : List String) {α : Type}
    {r : Except Error α} (h : ∀ e, r = .error e → ¬ e.Damage) :
    Settled σ layout m branches target news r m :=
  .inl ⟨[], [], branches, .refl mapped target, .inl rfl, h⟩

theorem Settled.refused (mapped : Mapped layout m branches) (target news : List String) {α : Type}
    {e : Error} (h : e.Refusal) :
    Settled σ layout m branches target news (.error e : Except Error α) m :=
  .refl mapped target news fun _ he => Except.error.inj he ▸ h.not_damage

theorem Settled.map {α β : Type} {f : α → β} {target news : List String} {r : Except Error α}
    (h : Settled σ layout m branches target news r m') :
    Settled σ layout m branches target news (r.map f) m' := by
  rcases h with ⟨news', taken, branches', hevolved, hnews, herror⟩ | ⟨e, rfl, he, hcut⟩
  · refine .inl ⟨news', taken, branches', hevolved, hnews, fun e he => herror e ?_⟩
    cases r with
    | ok a => cases he
    | error e' => cases he; rfl
  · exact .inr ⟨e, rfl, he, hcut⟩

/-- What every call does, whether or not it was cut off. -/
theorem Settled.evolved_near {α : Type} {target news : List String} {r : Except Error α}
    (h : Settled σ layout m branches target news r m') :
    ∃ news' taken counted branches',
      Evolved layout m branches target news' taken counted m' branches' ∧
      (news' = [] ∨ news' = news) ∧ counted ≤ taken.length ∧ taken.length ≤ counted + 1 := by
  rcases h with ⟨news', taken, branches', hevolved, hnews, -⟩ | ⟨e, -, -, hcut⟩
  · exact ⟨news', taken, taken.length, branches', hevolved, hnews, Nat.le_refl _, Nat.le_succ _⟩
  · obtain ⟨newSize, mtime, added, taken, counted, hextended, hle, hge⟩ := hcut
    exact ⟨[], taken, counted, _, hextended, .inl rfl, hle, hge⟩

/-- However a change of a branch ends, paths lead where they should. -/
theorem Settled.standing {α : Type} {target news : List String} {r : Except Error α}
    (h : Settled σ layout m branches target news r m')
    (standing : Standing layout size m branches) :
    ∃ branches', Standing layout size m' branches' := by
  obtain ⟨_, _, _, branches', hevolved, -⟩ := h.evolved_near
  exact ⟨branches', standing.regular, standing.fits, hevolved.mapped⟩

section Standing

variable (standing : Standing layout size m branches)
include standing

theorem write_settled (now : UInt64) (path : String) (offset : Nat) (data : ByteArray) :
    (write layout now path offset data : Edit σ Nat).Ends size m
      (Settled σ layout m branches (Path.components path) []) := by
  obtain ⟨regular, hsize, mapped⟩ := standing
  rcases hrefusal : writeRefusal branches path offset data.size with _ | e
  · obtain ⟨branch, hbranch, hfile, hlength⟩ := of_writeRefusal hrefusal
    by_cases hdata : data.size = 0
    · refine (write_empty regular hsize mapped now hbranch hfile hdata).mono ?_
      rintro r m' ⟨rfl, rfl⟩
      exact .refl mapped _ _ fun e he => by cases he
    obtain ⟨newSize, hnewSize⟩ := hlength.resolve_left hdata
    refine (write_ends regular hsize mapped hbranch hfile now (by omega) hnewSize).mono ?_
    rintro r m' (⟨added, rfl, hevolved, -⟩ | ⟨added, rfl, hevolved, -⟩ | ⟨e, rfl, he, hcut⟩)
    · exact .inl ⟨[], added, _, hevolved, .inl rfl, fun e he => by cases he⟩
    · exact .inl ⟨[], added, _, hevolved, .inl rfl, fun e he => by cases he; exact id⟩
    · exact .inr ⟨e, rfl, he, hcut⟩
  · refine (write_refused regular hsize mapped now hrefusal).mono ?_
    rintro r m' ⟨rfl, rfl⟩
    exact .refused mapped _ _ (refusal_of_writeRefusal hrefusal)

theorem create_settled (now : UInt64) (path name : String) (kind : Kind) :
    (create layout now path name kind : Edit σ Node).Ends size m
      (Settled σ layout m branches (Path.components path) [name]) := by
  obtain ⟨regular, hsize, mapped⟩ := standing
  rcases hrefusal : createRefusal layout m branches path name with _ | e
  · obtain ⟨branch, hbranch, hcheck, hnew, hlarge⟩ := of_createRefusal hrefusal
    refine (create_ends regular hsize mapped hbranch now kind hcheck hnew hlarge).mono ?_
    rintro r m' (⟨b, place, added, rfl, hevolved, -⟩ | ⟨taken, rfl, -, -, hevolved, -⟩ |
      ⟨e, rfl, he, hcut⟩)
    · exact .inl ⟨[name], b :: added, _, hevolved, .inr rfl, fun e he => by cases he⟩
    · exact .inl ⟨[], taken, _, hevolved, .inl rfl, fun e he => by cases he; exact id⟩
    · exact .inr ⟨e, rfl, he, hcut⟩
  · refine (create_refused regular hsize mapped now kind hrefusal).mono ?_
    rintro r m' ⟨rfl, rfl⟩
    exact .refused mapped _ _ (refusal_of_createRefusal hrefusal)

theorem createAt_settled (now : UInt64) (path : String) (kind : Kind) :
    (createAt layout now path kind : Edit σ Node).Ends size m
      (Settled σ layout m branches (parts path).1 (parts path).2) := by
  rcases hsplit : Path.splitLast path with e | ⟨parent, name⟩
  · exact .ofExcept_bind_error hsplit (.refused standing.mapped _ _ (refusal_of_splitLast hsplit))
  · refine .ofExcept_bind hsplit ?_
    rw [parts, hsplit]
    exact create_settled standing now parent name kind

/-- A question leaves a volume as it is, and its answer does not speak of damage. -/
theorem ask_settled {α β : Type} {question : σ → Except Error α} {answer : α → β}
    (h : ∀ store, Store.size store = size → content store = m →
      ∀ e, question store = .error e → ¬ e.Damage) (target news : List String) :
    (answer <$> Edit.ask question).Ends size m (Settled σ layout m branches target news) :=
  .map (.ask fun store hsize hcontent =>
    .map (.refl standing.mapped target news (h store hsize hcontent)))

end Standing

section Step

variable (sound : Sound layout blockSize size m branches)
include sound

/-- A call keeps a volume in order and works on one branch only. -/
theorem Call.run_ends (now : UInt64) (call : Call) :
    (call.run layout now : Edit σ Reply).Ends size m
      (Settled σ layout m branches call.target call.news) := by
  obtain ⟨⟨regular, hfits, sealed, -⟩, mapped⟩ := id sound
  cases call with
  | scan path =>
    refine ask_settled sound.standing ?_ _ _
    rintro store rfl rfl e herror
    rw [scan_eq regular hfits mapped] at herror
    cases herror
  | lookup path =>
    refine ask_settled sound.standing ?_ _ _
    rintro store rfl rfl e herror
    exact (lookup_error regular hfits mapped herror).not_damage
  | list path =>
    refine ask_settled sound.standing ?_ _ _
    rintro store rfl rfl e herror
    exact (list_error regular hfits mapped herror).not_damage
  | read path offset length =>
    refine ask_settled sound.standing ?_ _ _
    rintro store rfl rfl e herror
    exact (Volume.read_error regular hfits mapped herror).not_damage
  | write path offset data =>
    exact .map (.mono (write_settled sound.standing now path offset data) fun _ _ => .map)
  | create parent name kind =>
    exact .map (.mono (create_settled sound.standing now parent name kind) fun _ _ => .map)
  | makeDirectory path =>
    exact .map (.mono (createAt_settled sound.standing now path .directory) fun _ _ => .map)
  | createFile path =>
    exact .map (.mono (createAt_settled sound.standing now path .file) fun _ _ => .map)
  | usage =>
    refine ask_settled sound.standing ?_ _ _
    rintro store rfl rfl e herror
    rw [sealed.usage_eq regular hfits] at herror
    cases herror

end Step

/-! ## Runs -/

omit [Faithful σ] in
theorem Call.runAll_nil (layout : Layout) (store : σ) : Call.runAll layout [] store = ([], store) :=
  rfl

omit [Faithful σ] in
theorem Call.runAll_cons (layout : Layout) (now : UInt64) (call : Call)
    (rest : List (UInt64 × Call)) (store : σ) :
    Call.runAll layout ((now, call) :: rest) store =
      (((call.run layout now).outcome store).1 ::
        (Call.runAll layout rest ((call.run layout now).outcome store).2).1,
      (Call.runAll layout rest ((call.run layout now).outcome store).2).2) := by
  rw [Call.runAll, Edit.outcome]
  cases Call.run layout now call store <;> rfl

section Reliable

variable {τ : Type} [Store τ] [Reliable τ] {store : τ}

/-- On a store whose writes do not fail no call is cut off. -/
theorem Settled.evolved {α : Type} {target news : List String} {r : Except Error α}
    (h : Settled τ layout m branches target news r m') :
    ∃ news' taken branches',
      Evolved layout m branches target news' taken taken.length m' branches' ∧
      (news' = [] ∨ news' = news) ∧ ∀ e, r = .error e → ¬ e.Damage := by
  rcases h with h | ⟨e, -, he, -⟩
  · exact h
  · exact absurd he (Reliable.not_fault e)

/-- A run of calls keeps a volume in order, and none of its failures speaks of damage. -/
theorem Call.runAll_sound (calls : List (UInt64 × Call))
    (sound : Sound layout blockSize (Store.size store) (content store) branches) :
    Store.size (Call.runAll layout calls store).2 = Store.size store ∧
      (∃ branches', Sound layout blockSize (Store.size store)
        (content (Call.runAll layout calls store).2) branches') ∧
      ∀ e, .error e ∈ (Call.runAll layout calls store).1 → ¬ e.Damage := by
  induction calls generalizing store branches with
  | nil => exact ⟨rfl, ⟨branches, sound⟩, fun e he => absurd he List.not_mem_nil⟩
  | cons timed rest ih =>
    obtain ⟨now, call⟩ := timed
    obtain ⟨hsize, hsettled⟩ := (Call.run_ends sound now call).outcome rfl rfl
    obtain ⟨news, taken, branches', hevolved, -, hdamage⟩ := hsettled.evolved
    have sound' := sound.of_evolved hevolved
    rw [← hsize] at sound'
    obtain ⟨hsize', hsound, herrors⟩ := ih sound'
    rw [Call.runAll_cons]
    refine ⟨hsize'.trans hsize, hsize ▸ hsound, fun e he => ?_⟩
    rcases List.mem_cons.mp he with he | he
    · exact hdamage e he.symm
    · exact herrors e he

/-- Every store that a run of calls makes out of a formatted one holds a volume in order. -/
theorem sound_of_format {after : τ} (hformat : format blockSize store = .ok layout after)
    (calls : List (UInt64 × Call)) :
    Store.size (Call.runAll layout calls after).2 = Store.size store ∧
      (∃ branches, Sound layout blockSize (Store.size store)
        (content (Call.runAll layout calls after).2) branches) ∧
      ∀ e, .error e ∈ (Call.runAll layout calls after).1 → ¬ e.Damage := by
  obtain ⟨hsize, hformatted⟩ := formatted_of_ok hformat
  have sound := hformatted.sound
  rw [← hsize] at sound ⊢
  exact Call.runAll_sound calls sound

end Reliable

end Volume

end ChainFs
