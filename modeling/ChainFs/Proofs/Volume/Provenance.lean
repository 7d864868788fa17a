import ChainFs.Proofs.Volume.Runs

/-!
# Where bytes and times come from

* `Volume.write_brings`, `Volume.create_brings` — what a write and a new entry bring to a volume;
* `Volume.Dated`, `Volume.Call.run_dated` — a volume whose mtimes are all times of calls;
* `Volume.Writes`, `Volume.Traced` — a byte that calls wrote at a place of a file; a volume whose
  files hold nothing else but zeros;
* `Volume.Call.run_tracks` — a call keeps a volume so, also if it runs out of space half way;
* `Volume.Call.runAll_readsTraced` — so what a run of calls reads was written before, or is zero.

Both invariants are kept by the same few lemmas, since an edit works on one branch: its mtime is the
time of the call, and its bytes are those it had or the data. All other branches have the times and
the bytes that they had.
-/

namespace ChainFs.Volume

open Store Bitmap Chain Directory

variable {σ : Type} [Store σ] [Reliable σ] {layout : Layout} {m m' : Content} {size : Nat}
  {blockSize : UInt32} {branches branches' : Branches} {past past' : List (UInt64 × Call)}
  {names : List String} {branch : Branch}

/-! ## What calls bring -/

section Brings

variable (sound : Sound layout blockSize size m branches)
include sound

/-- A write changes nothing, or records size and mtime of a file and brings data into it. -/
theorem write_brings (now : UInt64) (path : String) (offset : Nat) (data : ByteArray) :
    (write layout now path offset data : Edit σ Nat).Ends size m fun _ m' =>
      m' = m ∨ ∃ branch newSize added taken counted n,
        branches (Path.components path) = some branch ∧ ¬ branch.node.isDirectory ∧
        Extended layout m branches (Path.components path) newSize now added taken counted m' ∧
        payload layout m' (branch.chain ++ added)
          = (payload layout m branch.chain).put offset (data.extract 0 n) := by
  obtain ⟨⟨regular, hsize, -, -⟩, mapped⟩ := sound
  rcases hrefusal : writeRefusal branches path offset data.size with _ | e
  · obtain ⟨branch, hbranch, hfile, hlength⟩ := of_writeRefusal hrefusal
    by_cases hdata : data.size = 0
    · refine (write_empty regular hsize mapped now hbranch hfile hdata).mono ?_
      rintro r m' ⟨-, rfl⟩
      exact .inl rfl
    obtain ⟨newSize, hnewSize⟩ := hlength.resolve_left hdata
    refine (write_ends regular hsize mapped hbranch hfile now (by omega) hnewSize).mono ?_
    rintro r m' (⟨added, -, extended, hpayload, -⟩ | ⟨added, -, extended, -, -, hpayload⟩ |
      ⟨e, -, he, -⟩)
    · have hwhole : data.extract 0 data.size = data := ByteArray.extract_zero_size
      rw [← hwhole] at hpayload
      exact .inr ⟨branch, newSize, added, _, _, _, hbranch, hfile, extended, hpayload⟩
    · exact .inr ⟨branch, newSize, added, _, _, _, hbranch, hfile, extended, hpayload⟩
    · exact absurd he (Reliable.not_fault e)
  · refine (write_refused regular hsize mapped now hrefusal).mono ?_
    rintro r m' ⟨-, rfl⟩
    exact .inl rfl

/-- The creation of an entry changes nothing, or records size and mtime of a directory, which may
get the entry. -/
theorem create_brings (now : UInt64) (path name : String) (kind : Kind) :
    (create layout now path name kind : Edit σ Node).Ends size m fun _ m' =>
      m' = m ∨ ∃ branch newSize added taken counted,
        branches (Path.components path) = some branch ∧ branch.node.isDirectory ∧
        (Extended layout m branches (Path.components path) newSize now added taken counted m' ∨
          ∃ b place, Evolved layout m branches (Path.components path) [name] taken counted m'
            (Function.update (branches.modify (Path.components path) (Branch.extend added ∘
              Branch.stamp newSize now)) (Path.components path ++ [name])
              (some ⟨⟨⟨kind, b, 0, now, name⟩, some place⟩, [b]⟩))) := by
  obtain ⟨⟨regular, hsize, -, -⟩, mapped⟩ := sound
  rcases hrefusal : createRefusal layout m branches path name with _ | e
  · obtain ⟨branch, hbranch, hcheck, hnew, hlarge⟩ := of_createRefusal hrefusal
    have hkind := (of_checkNew hcheck).2
    refine (create_ends regular hsize mapped hbranch now kind hcheck hnew hlarge).mono ?_
    rintro r m' (⟨b, place, added, -, evolved, -⟩ | ⟨taken, -, -, -, extended, -⟩ | ⟨e, -, he, -⟩)
    · exact .inr ⟨branch, _, added, _, _, hbranch, hkind, .inr ⟨b, place, evolved⟩⟩
    · exact .inr ⟨branch, _, [], _, _, hbranch, hkind, .inl extended⟩
    · exact absurd he (Reliable.not_fault e)
  · refine (create_refused regular hsize mapped now kind hrefusal).mono ?_
    rintro r m' ⟨-, rfl⟩
    exact .inl rfl

end Brings

/-! ## Times -/

/-- All mtimes but that of the root, which has none, are among the times. -/
def Dated (branches : Branches) (times : List UInt64) : Prop :=
  ∀ names branch, branches names = some branch → branch.node.recordAddress ≠ none →
    branch.node.record.mtime ∈ times

theorem dated_rootOnly (layout : Layout) (times : List UInt64) : Dated (rootOnly layout) times := by
  intro names branch h hrecord
  obtain ⟨-, rfl⟩ := of_rootOnly h
  exact absurd rfl hrecord

namespace Dated

variable {times : List UInt64}

/-- A branch with a new mtime. -/
theorem modify (dated : Dated branches times) {now : UInt64} (hnow : now ∈ times)
    (target : List String) (newSize : UInt32) (added : List Nat) :
    Dated (branches.modify target (Branch.extend added ∘ Branch.stamp newSize now)) times := by
  intro names branch' h' hrecord
  obtain ⟨branch, h, hbranch⟩ := Option.map_eq_some_iff.mp h'
  split at hbranch
  · subst hbranch
    rcases hx : branch.node.recordAddress with _ | x
    · rw [Function.comp_apply, Branch.node_extend, Branch.stamp, if_pos hx] at hrecord
      exact absurd hx hrecord
    · rw [Function.comp_apply, Branch.node_extend, Branch.stamp_of_record hx]
      exact hnow
  · exact hbranch ▸ dated names branch h (hbranch ▸ hrecord)

/-- A new branch with the time of the call. -/
theorem update (dated : Dated branches times) {branch : Branch}
    (hnow : branch.node.record.mtime ∈ times) (names : List String) :
    Dated (Function.update branches names (some branch)) times := by
  intro names' branch' h hrecord
  by_cases hnames : names' = names
  · rw [hnames, Function.update_self] at h
    rwa [← Option.some.inj h]
  · rw [Function.update_of_ne hnames] at h
    exact dated names' branch' h hrecord

end Dated

section Dated

variable (sound : Sound layout blockSize size m branches) {times : List UInt64}
  (dated : Dated branches times) {now : UInt64} (hnow : now ∈ times)
include sound dated hnow

theorem write_dated (path : String) (offset : Nat) (data : ByteArray) :
    (write layout now path offset data : Edit σ Nat).Ends size m fun _ m' =>
      ∃ branches', Mapped layout m' branches' ∧ Dated branches' times := by
  refine (write_brings sound now path offset data).mono ?_
  rintro r m' (rfl | ⟨branch, newSize, added, taken, counted, n, -, -, extended, -⟩)
  · exact ⟨branches, sound.mapped, dated⟩
  · exact ⟨_, extended.mapped, dated.modify hnow _ newSize added⟩

theorem create_dated (path name : String) (kind : Kind) :
    (create layout now path name kind : Edit σ Node).Ends size m fun _ m' =>
      ∃ branches', Mapped layout m' branches' ∧ Dated branches' times := by
  refine (create_brings sound now path name kind).mono ?_
  rintro r m' (rfl | ⟨branch, newSize, added, taken, counted, -, -, extended | ⟨b, place, evolved⟩⟩)
  · exact ⟨branches, sound.mapped, dated⟩
  · exact ⟨_, extended.mapped, dated.modify hnow _ newSize added⟩
  · exact ⟨_, evolved.mapped, (dated.modify hnow _ newSize added).update hnow _⟩

theorem createAt_dated (path : String) (kind : Kind) :
    (createAt layout now path kind : Edit σ Node).Ends size m fun _ m' =>
      ∃ branches', Mapped layout m' branches' ∧ Dated branches' times := by
  rcases hsplit : Path.splitLast path with e | ⟨parent, name⟩
  · exact .ofExcept_bind_error hsplit ⟨branches, sound.mapped, dated⟩
  · exact .ofExcept_bind hsplit (create_dated sound dated hnow parent name kind)

/-- Calls record only their own times. -/
theorem Call.run_dated (call : Call) :
    (call.run layout now : Edit σ Reply).Ends size m fun _ m' =>
      ∃ branches', Mapped layout m' branches' ∧ Dated branches' times := by
  have hask : ∀ {α : Type} (question : σ → Except Error α) (answer : α → Reply),
      (answer <$> Edit.ask question).Ends size m fun _ m' =>
        ∃ branches', Mapped layout m' branches' ∧ Dated branches' times :=
    fun question answer => .map (.ask fun _ _ _ => ⟨branches, sound.mapped, dated⟩)
  cases call with
  | scan path => exact hask _ _
  | lookup path => exact hask _ _
  | list path => exact hask _ _
  | read path offset length => exact hask _ _
  | usage => exact hask _ _
  | write path offset data => exact .map (write_dated sound dated hnow path offset data)
  | create parent name kind => exact .map (create_dated sound dated hnow parent name kind)
  | makeDirectory path => exact .map (createAt_dated sound dated hnow path .directory)
  | createFile path => exact .map (createAt_dated sound dated hnow path .file)

end Dated

/-- A run of calls records only its own times. -/
theorem Call.runAll_dated (calls : List (UInt64 × Call)) {store : σ}
    (sound : Sound layout blockSize (Store.size store) (content store) branches)
    {times : List UInt64} (dated : Dated branches times) (htimes : calls.map Prod.fst ⊆ times) :
    ∃ branches', Sound layout blockSize (Store.size (Call.runAll layout calls store).2)
      (content (Call.runAll layout calls store).2) branches' ∧ Dated branches' times := by
  induction calls generalizing store branches with
  | nil => exact ⟨branches, sound, dated⟩
  | cons timed rest ih =>
    obtain ⟨now, call⟩ := timed
    obtain ⟨hnow, hrest⟩ := List.cons_subset.mp htimes
    have hends : (call.run layout now : Edit σ Reply).Ends (Store.size store) (content store) _ :=
      Call.run_ends sound now call
    have hdated : (call.run layout now : Edit σ Reply).Ends (Store.size store) (content store) _ :=
      Call.run_dated sound dated hnow call
    obtain ⟨hsize, hsettled⟩ := hends.outcome rfl rfl
    obtain ⟨-, branches', mapped', dated'⟩ := hdated.outcome rfl rfl
    obtain ⟨news, taken, branches'', evolved, -⟩ := hsettled.evolved
    have sound' := sound.of_evolved evolved
    rw [← hsize] at sound'
    obtain rfl := evolved.mapped.unique sound'.regular mapped'
    rw [Call.runAll_cons]
    exact ih sound' dated' hrest

/-! ## Bytes -/

/-- Some call wrote the byte at the place of the file. -/
def Writes (calls : List (UInt64 × Call)) (names : List String) (place : Nat) (byte : UInt8) :
    Prop :=
  ∃ now path offset data, (now, Call.write path offset data) ∈ calls ∧
    Path.components path = names ∧ offset ≤ place ∧ place < offset + data.size ∧
    byte = Bytes.get data (place - offset)

theorem Writes.mono {place : Nat} {byte : UInt8} (h : Writes past names place byte)
    (hsub : past ⊆ past') : Writes past' names place byte := by
  obtain ⟨now, path, offset, data, hmem, hplace⟩ := h
  exact ⟨now, path, offset, data, hsub hmem, hplace⟩

/-- All bytes of a file are zero or were written by the calls. -/
def TracedAt (layout : Layout) (m : Content) (past : List (UInt64 × Call)) (names : List String)
    (branch : Branch) : Prop :=
  ∀ i, payload layout m branch.chain i = 0 ∨
    Writes past names i (payload layout m branch.chain i)

/-- All files of a volume hold but zeros and what the calls wrote. -/
def Traced (layout : Layout) (m : Content) (branches : Branches) (past : List (UInt64 × Call)) :
    Prop :=
  ∀ {names branch}, branches names = some branch → ¬ branch.node.isDirectory →
    TracedAt layout m past names branch

/-- The root alone is no file. -/
theorem traced_rootOnly (layout : Layout) (m : Content) :
    Traced layout m (rootOnly layout) [] := by
  intro names branch h hfile
  obtain ⟨-, rfl⟩ := of_rootOnly h
  exact absurd rfl hfile

namespace Traced

theorem mono (traced : Traced layout m branches past) (hsub : past ⊆ past') :
    Traced layout m branches past' :=
  fun h hfile i => (traced h hfile i).imp id fun hwrites => hwrites.mono hsub

/-- An edit of one branch keeps all others as they are. -/
theorem of_evolved (traced : Traced layout m branches past) (hsub : past ⊆ past')
    {target news : List String} {taken : List Nat} {counted : Nat}
    (evolved : Evolved layout m branches target news taken counted m' branches')
    (hnew : ∀ {names branch}, branches names = none → branches' names = some branch →
      branch.node.record.size = 0)
    (htarget : ∀ {branch branch'}, branches target = some branch →
      branches' target = some branch' → ¬ branch'.node.isDirectory →
      TracedAt layout m' past' target branch') :
    Traced layout m' branches' past' := by
  intro names branch' h' hfile
  rcases h : branches names with _ | branch
  · -- a new file is empty
    intro i
    refine .inl (evolved.mapped.zero h' hfile i ?_)
    rw [hnew h h']
    exact Nat.zero_le i
  by_cases hnames : names = target
  · subst hnames
    exact htarget h h' hfile
  · obtain ⟨hsame, halike⟩ := evolved.other hnames h
    obtain rfl := Option.some.inj (hsame.symm.trans h')
    rw [Alike, if_neg hfile] at halike
    intro i
    rw [halike]
    exact traced.mono hsub h hfile i

end Traced

/-- What an edit leaves behind: a volume whose files are traced to the calls. -/
def Tracks (layout : Layout) (past : List (UInt64 × Call)) (m' : Content) : Prop :=
  ∃ branches', Mapped layout m' branches' ∧ Traced layout m' branches' past

section Step

variable (sound : Sound layout blockSize size m branches) (traced : Traced layout m branches past)
include sound traced

/-- A write brings its own data, as much of it as falls inside the file. -/
theorem write_tracks (now : UInt64) (path : String) (offset : Nat) (data : ByteArray) :
    (write layout now path offset data : Edit σ Nat).Ends size m fun _ m' =>
      Tracks layout (past ++ [(now, .write path offset data)]) m' := by
  have hsub := List.subset_append_left past [(now, Call.write path offset data)]
  refine (write_brings sound now path offset data).mono ?_
  rintro r m'
    (rfl | ⟨branch, newSize, added, taken, counted, n, hbranch, hfile, extended, hpayload⟩)
  · exact ⟨branches, sound.mapped, traced.mono hsub⟩
  refine ⟨_, extended.mapped, traced.of_evolved hsub extended (fun hnone hsome => ?_)
    fun hold hnew _ i => ?_⟩
  · rw [Branches.modify_none hnone] at hsome
    cases hsome
  obtain rfl := Option.some.inj (hold.symm.trans hbranch)
  rw [Branches.modify_self hold] at hnew
  obtain rfl := Option.some.inj hnew
  rw [Function.comp_apply, Branch.chain_extend, Branch.chain_stamp, hpayload, Content.put]
  split
  · rename_i hin
    rw [ByteArray.size_extract] at hin
    refine .inr ⟨now, path, offset, data, by simp, rfl, hin.1, by omega, ?_⟩
    rw [Bytes.get_extract, if_pos (by omega), Nat.zero_add]
  · exact traced.mono hsub hbranch hfile i

/-- A new entry is empty. -/
theorem create_tracks (now : UInt64) (path name : String) (kind : Kind) :
    (create layout now path name kind : Edit σ Node).Ends size m fun _ m' =>
      Tracks layout past m' := by
  refine (create_brings sound now path name kind).mono ?_
  rintro r m' (rfl | ⟨branch, newSize, added, taken, counted, hbranch, hkind, hcases⟩)
  · exact ⟨branches, sound.mapped, traced⟩
  have htracks : ∀ {news branches'},
      Evolved layout m branches (Path.components path) news taken counted m' branches' →
      (∀ {names branch}, branches names = none → branches' names = some branch →
        branch.node.record.size = 0) → Tracks layout past m' := by
    intro news branches' evolved hempty
    refine ⟨_, evolved.mapped, traced.of_evolved (List.Subset.refl past) evolved hempty ?_⟩
    intro old new hold hnew hfile
    -- the path is that of a directory, which stays one
    obtain ⟨branch', hbranch', hkeeps⟩ := evolved.keeps hbranch
    obtain rfl := Option.some.inj (hbranch'.symm.trans hnew)
    exact absurd (hkeeps.isDirectory_eq.trans hkind) hfile
  rcases hcases with extended | ⟨b, place, evolved⟩
  · refine htracks extended fun hnone hsome => ?_
    rw [Branches.modify_none hnone] at hsome
    cases hsome
  · refine htracks evolved fun {names'} {branch'} hnone hsome => ?_
    by_cases hnames : names' = Path.components path ++ [name]
    · rw [hnames, Function.update_self] at hsome
      rw [← Option.some.inj hsome]
    · rw [Function.update_of_ne hnames, Branches.modify_none hnone] at hsome
      cases hsome

theorem createAt_tracks (now : UInt64) (path : String) (kind : Kind) :
    (createAt layout now path kind : Edit σ Node).Ends size m fun _ m' =>
      Tracks layout past m' := by
  rcases hsplit : Path.splitLast path with e | ⟨parent, name⟩
  · exact .ofExcept_bind_error hsplit ⟨branches, sound.mapped, traced⟩
  · exact .ofExcept_bind hsplit (create_tracks sound traced now parent name kind)

/-- After a call the files hold nothing but zeros and what the calls up to this one wrote. -/
theorem Call.run_tracks (now : UInt64) (call : Call) :
    (call.run layout now : Edit σ Reply).Ends size m fun _ m' =>
      Tracks layout (past ++ [(now, call)]) m' := by
  have hsub := List.subset_append_left past [(now, call)]
  have hmono : ∀ {m'}, Tracks layout past m' → Tracks layout (past ++ [(now, call)]) m' := by
    rintro m' ⟨branches', mapped', traced'⟩
    exact ⟨branches', mapped', traced'.mono hsub⟩
  have hask : ∀ {α : Type} (question : σ → Except Error α) (answer : α → Reply),
      (answer <$> Edit.ask question).Ends size m fun _ m' =>
        Tracks layout (past ++ [(now, call)]) m' :=
    fun question answer => .map (.ask fun _ _ _ => hmono ⟨branches, sound.mapped, traced⟩)
  cases call with
  | scan path => exact hask _ _
  | lookup path => exact hask _ _
  | list path => exact hask _ _
  | read path offset length => exact hask _ _
  | usage => exact hask _ _
  | write path offset data => exact .map (write_tracks sound traced now path offset data)
  | create parent name kind =>
    exact .map ((create_tracks sound traced now parent name kind).mono fun _ _ => hmono)
  | makeDirectory path =>
    exact .map ((createAt_tracks sound traced now path .directory).mono fun _ _ => hmono)
  | createFile path =>
    exact .map ((createAt_tracks sound traced now path .file).mono fun _ _ => hmono)

end Step

/-! ## Reads -/

/-- What is read from a volume is what its files hold. -/
theorem read_traced (sound : Sound layout blockSize size m branches)
    (traced : Traced layout m branches past) {store : σ} (hsize : Store.size store = size)
    (hcontent : content store = m) {path : String} {offset length : Nat} {bytes : ByteArray}
    (h : Volume.read layout store path offset length = .ok bytes) {i : Nat} (hi : i < bytes.size) :
    Bytes.get bytes i = 0 ∨
      Writes past (Path.components path) (offset + i) (Bytes.get bytes i) := by
  subst hsize hcontent
  rcases hbranch : branches (Path.components path) with _ | branch
  · rw [(question_error sound.regular sound.fits sound.mapped hbranch).2.2] at h
    cases h
  · rw [read_eq sound.regular sound.fits sound.mapped hbranch] at h
    split at h
    · cases h
    rename_i hfile
    obtain rfl := Except.ok.inj h
    rw [Content.size_window] at hi
    rw [Content.get_window _ hi]
    exact traced hbranch hfile (offset + i)

/-- What a call of a run reads was written by calls before it, or is zero. -/
def ReadsTraced (past calls : List (UInt64 × Call)) (answers : List (Except Error Reply)) : Prop :=
  ∀ {front now path offset length bytes}, front ++ [(now, .read path offset length)] <+: calls →
    answers[front.length]? = some (.ok (.content bytes)) → ∀ i < bytes.size,
      Bytes.get bytes i = 0 ∨
        Writes (past ++ front) (Path.components path) (offset + i) (Bytes.get bytes i)

/-- So it is in every run of calls on a volume whose files are traced. -/
theorem Call.runAll_readsTraced (calls : List (UInt64 × Call)) {store : σ}
    (sound : Sound layout blockSize (Store.size store) (content store) branches)
    (traced : Traced layout (content store) branches past) :
    ReadsTraced past calls (Call.runAll layout calls store).1 := by
  induction calls generalizing store branches past with
  | nil =>
    intro front now path offset length bytes hprefix
    exact absurd (List.prefix_nil.mp hprefix) (by simp)
  | cons timed rest ih =>
    obtain ⟨time, call⟩ := timed
    have hends : (call.run layout time : Edit σ Reply).Ends (Store.size store) (content store) _ :=
      Call.run_ends sound time call
    have htracks : (call.run layout time : Edit σ Reply).Ends (Store.size store) (content store)
        fun _ m' => Tracks layout (past ++ [(time, call)]) m' :=
      Call.run_tracks sound traced time call
    obtain ⟨hsize, hsettled⟩ := hends.outcome rfl rfl
    obtain ⟨-, branches', mapped', traced'⟩ := htracks.outcome rfl rfl
    obtain ⟨news, taken, branches'', evolved, -⟩ := hsettled.evolved
    have sound' := sound.of_evolved evolved
    rw [← hsize] at sound'
    obtain rfl := evolved.mapped.unique sound'.regular mapped'
    rw [Call.runAll_cons]
    intro front now path offset length bytes hprefix hanswer
    cases front with
    | nil =>
      obtain ⟨heq, -⟩ := List.cons_prefix_cons.mp hprefix
      cases heq
      have hread := Option.some.inj hanswer
      rw [Call.run, Edit.outcome_map, Edit.outcome_ask] at hread
      rcases hbytes : Volume.read layout store path offset length with e | bytes'
      · rw [hbytes] at hread
        cases hread
      · rw [hbytes] at hread
        cases hread
        intro i hi
        rw [List.append_nil]
        exact read_traced sound traced rfl rfl hbytes hi
    | cons first front =>
      obtain ⟨rfl, hrest⟩ := List.cons_prefix_cons.mp hprefix
      rw [List.append_cons]
      exact ih sound' traced' hrest hanswer

end ChainFs.Volume
