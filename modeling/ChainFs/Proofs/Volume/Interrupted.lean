import ChainFs.Proofs.Volume.Integrity

/-!
# Calls that are cut off

A call is cut off after some of its writes when power fails, or when the store refuses to take more.
There is no journal, so what such a call leaves is what later calls will find.

* `Volume.Recovers` — what is left opens with the same layout and has integrity; the paths from
  before lead to the same entries, files other than the one being written have the same bytes,
  directories list the same names, if not one more, and at most one block in use is not counted;
* `Volume.recovers_of_cut` — every call on a volume in order leaves such a volume behind, wherever
  it is cut off.

A store that takes only `k` more writes is as good as power that fails behind the `k`th one. Each
call on it ends in one of the ways that `Volume.Settled` names, and so one lemma about these ways is
enough for all calls and all points.
-/

namespace ChainFs.Volume

open Store Bitmap Chain Directory

/-- The path of the file that a call writes into. -/
def Call.written : Call → Option (List String)
  | .write path _ _ => some (Path.components path)
  | _ => none

/-- The names of the entries in a listing. -/
def namesOf (nodes : Array Node) : List String :=
  nodes.toList.map (·.record.name)

/-- A store that is left by a call which was cut off, compared with the store from before. -/
structure Recovers {σ : Type} [Store σ] [Faithful σ] (layout : Layout) (blockSize : UInt32)
    (call : Call) (before after : σ) : Prop where
  opens : load after blockSize = .ok layout
  integrity : Integrity layout after
  resolves : ∀ {path node}, scan layout before path = .ok (some node) →
    ∃ node', scan layout after path = .ok (some node') ∧
      node'.record.kind = node.record.kind ∧ node'.record.address = node.record.address ∧
      node'.record.name = node.record.name ∧ node'.recordAddress = node.recordAddress
  files : ∀ {path node}, scan layout before path = .ok (some node) → ¬ node.isDirectory →
    call.written ≠ some (Path.components path) →
    scan layout after path = .ok (some node) ∧
      ∀ offset length, read layout after path offset length = read layout before path offset length
  listings : ∀ {path nodes}, list layout before path = .ok nodes →
    ∃ nodes', list layout after path = .ok nodes' ∧ (namesOf nodes' = namesOf nodes ∨
      Path.components path = call.target ∧ namesOf nodes' = namesOf nodes ++ call.news)
  counted : ∃ usage, Volume.usage layout after = .ok usage ∧
    (usage.allocCount = population layout (content after) ∨
      usage.allocCount + 1 = population layout (content after))

section Step

variable {σ : Type} [Store σ] [Faithful σ] {layout : Layout} {m m' : Content} {size : Nat}
  {blockSize : UInt32} {branches branches' : Branches}

theorem createRefusal_of_file {path : String} {branch : Branch}
    (h : branches (Path.components path) = some branch) (hfile : ¬ branch.node.isDirectory)
    (name : String) : ∃ e, createRefusal layout m branches path name = some e := by
  rcases hrefusal : createRefusal layout m branches path name with _ | e
  · obtain ⟨branch', h', hcheck, -⟩ := of_createRefusal hrefusal
    obtain rfl := Option.some.inj (h.symm.trans h')
    exact absurd (of_checkNew hcheck).2 hfile
  · exact ⟨e, rfl⟩

/-- An entry in a file is not created. -/
theorem create_in_file (sound : Sound layout blockSize size m branches) (now : UInt64)
    {path : String} {branch : Branch} (h : branches (Path.components path) = some branch)
    (hfile : ¬ branch.node.isDirectory) (name : String) (kind : Kind) :
    (create layout now path name kind : Edit σ Node).Ends size m fun _ m' => m' = m := by
  obtain ⟨e, hrefusal⟩ : ∃ e, createRefusal layout m branches path name = some e :=
    createRefusal_of_file h hfile name
  exact (create_refused sound.regular sound.fits sound.mapped now kind hrefusal).mono
    fun _ _ hend => hend.2

theorem createAt_in_file (sound : Sound layout blockSize size m branches) (now : UInt64)
    {path : String} {branch : Branch} (h : branches (parts path).1 = some branch)
    (hfile : ¬ branch.node.isDirectory) (kind : Kind) :
    (createAt layout now path kind : Edit σ Node).Ends size m fun _ m' => m' = m := by
  rcases hsplit : Path.splitLast path with e | ⟨parent, name⟩
  · exact .ofExcept_bind_error hsplit rfl
  · rw [parts, hsplit] at h
    exact .ofExcept_bind hsplit (create_in_file sound now h hfile name kind)

/-- A call that works on a file but does not write into it changes nothing. -/
theorem Call.run_in_file (sound : Sound layout blockSize size m branches) (now : UInt64)
    {call : Call} {branch : Branch} (h : branches call.target = some branch)
    (hfile : ¬ branch.node.isDirectory) (hwritten : call.written ≠ some call.target) :
    (call.run layout now : Edit σ Reply).Ends size m fun _ m' => m' = m := by
  cases call with
  | write path offset data => exact absurd rfl hwritten
  | create parent name kind => exact .map (create_in_file sound now h hfile name kind)
  | makeDirectory path => exact .map (createAt_in_file sound now h hfile .directory)
  | createFile path => exact .map (createAt_in_file sound now h hfile .file)
  | _ => exact .map (.ask fun _ _ _ => rfl)

section Evolved

variable {before after : σ} (regular : layout.Regular)
  (hbefore : layout.endAddress ≤ Store.size before) (hafter : layout.endAddress ≤ Store.size after)
  (mapped : Mapped layout (content before) branches)
include regular hbefore hafter mapped

/-- What a path led to is still there, but for size and mtime. -/
theorem scan_of_evolved {target news : List String} {taken : List Nat} {counted : Nat}
    (evolved : Evolved layout (content before) branches target news taken counted (content after)
      branches')
    {path : String} {node : Node} (hscan : scan layout before path = .ok (some node)) :
    ∃ node', scan layout after path = .ok (some node') ∧
      node'.record.kind = node.record.kind ∧ node'.record.address = node.record.address ∧
      node'.record.name = node.record.name ∧ node'.recordAddress = node.recordAddress := by
  rw [scan_eq regular hbefore mapped] at hscan
  obtain ⟨branch, hbranch, rfl⟩ := Option.map_eq_some_iff.mp (Except.ok.inj hscan)
  obtain ⟨branch', hbranch', hkeeps⟩ := evolved.keeps hbranch
  refine ⟨branch'.node, ?_, hkeeps.kind_eq, hkeeps.address_eq, hkeeps.name_eq,
    hkeeps.recordAddress_eq⟩
  rw [scan_eq regular hafter evolved.mapped, hbranch']
  rfl

/-- A file with the same branch and the same bytes reads the same. -/
theorem read_of_alike {path : String} {branch : Branch}
    (mapped' : Mapped layout (content after) branches')
    (h : branches (Path.components path) = some branch)
    (h' : branches' (Path.components path) = some branch) (hfile : ¬ branch.node.isDirectory)
    (halike : Alike layout (content before) (content after) branch) :
    scan layout after path = .ok (some branch.node) ∧
      ∀ offset length, read layout after path offset length
        = read layout before path offset length := by
  rw [Alike, if_neg hfile] at halike
  refine ⟨?_, fun offset length => ?_⟩
  · rw [scan_eq regular hafter mapped', h']
    rfl
  · rw [Volume.read_eq regular hafter mapped' h', Volume.read_eq regular hbefore mapped h, halike]

/-- A directory lists the names it listed before, and behind them those that are new. -/
theorem list_of_evolved {target news : List String} {taken : List Nat} {counted : Nat}
    (evolved : Evolved layout (content before) branches target news taken counted (content after)
      branches')
    {path : String} {nodes : Array Node} (hlist : list layout before path = .ok nodes) :
    ∃ nodes', list layout after path = .ok nodes' ∧ (namesOf nodes' = namesOf nodes ∨
      Path.components path = target ∧ namesOf nodes' = namesOf nodes ++ news) := by
  obtain ⟨branch, hbranch, hkind, rfl⟩ := exists_branch_of_list regular hbefore mapped hlist
  obtain ⟨branch', hbranch', hkeeps⟩ := evolved.keeps hbranch
  refine ⟨_, (list_eq regular hafter evolved.mapped hbranch').trans
    (if_pos (hkeeps.isDirectory_eq.trans hkind)), ?_⟩
  -- listings are compared by their names
  change entryNames layout (content after) branch'.chain
      = entryNames layout (content before) branch.chain ∨ Path.components path = target ∧
    entryNames layout (content after) branch'.chain
      = entryNames layout (content before) branch.chain ++ news
  by_cases htarget : Path.components path = target
  · exact .inr ⟨htarget, evolved.listing (htarget ▸ hbranch) (htarget ▸ hbranch') hkind⟩
  · obtain ⟨hbranch'', halike⟩ := evolved.other htarget hbranch
    obtain rfl := Option.some.inj (hbranch'.symm.trans hbranch'')
    rw [Alike, if_pos hkind] at halike
    exact .inl halike

end Evolved

/-- Whatever works on one branch and leaves at most one block uncounted leaves a volume that
recovers. -/
theorem recovers_of_evolved {before after : σ} {call : Call} {news : List String} {taken : List Nat}
    {counted : Nat}
    (sound : Sound layout blockSize (Store.size before) (content before) branches)
    (hsize : Store.size after = Store.size before)
    (evolved : Evolved layout (content before) branches call.target news taken counted
      (content after) branches')
    (hnews : news = [] ∨ news = call.news) (hle : counted ≤ taken.length)
    (hge : taken.length ≤ counted + 1)
    (hkept : ∀ branch, branches call.target = some branch → ¬ branch.node.isDirectory →
      call.written ≠ some call.target → content after = content before) :
    Recovers layout blockSize call before after := by
  obtain ⟨⟨regular, hbefore, sealed, hcounted⟩, mapped⟩ := sound
  have hafter : layout.endAddress ≤ Store.size after := hsize ▸ hbefore
  obtain ⟨touched, growth⟩ := evolved.growth
  have sealed' := sealed.of_growth regular growth
  refine ⟨sealed'.load_eq regular hafter, evolved.mapped.integrity regular hafter,
    scan_of_evolved regular hbefore hafter mapped evolved, ?files, ?listings, ?counted⟩
  case files =>
    intro path node hscan hfile hwritten
    rw [scan_eq regular hbefore mapped] at hscan
    obtain ⟨branch, hbranch, rfl⟩ := Option.map_eq_some_iff.mp (Except.ok.inj hscan)
    by_cases htarget : Path.components path = call.target
    · -- a call that works on a file and does not write into it is refused
      have hsame := hkept branch (htarget ▸ hbranch) hfile (htarget ▸ hwritten)
      have mapped' : Mapped layout (content after) branches := hsame ▸ mapped
      have halike : Alike layout (content before) (content after) branch :=
        hsame ▸ .refl layout _ branch
      exact read_of_alike regular hbefore hafter mapped mapped' hbranch hbranch hfile halike
    · obtain ⟨hbranch', halike⟩ := evolved.other htarget hbranch
      exact read_of_alike regular hbefore hafter mapped evolved.mapped hbranch hbranch' hfile halike
  case listings =>
    intro path nodes hlist
    obtain ⟨nodes', hlist', hnames⟩ := list_of_evolved regular hbefore hafter mapped evolved hlist
    refine ⟨nodes', hlist', ?_⟩
    rcases hnews with rfl | rfl
    · rw [List.append_nil] at hnames
      exact .inl (hnames.elim id And.right)
    · exact hnames
  case counted =>
    refine ⟨_, sealed'.usage_eq regular hafter, ?_⟩
    -- the count lags behind the blocks in use by those that were taken and not counted
    have hcount := growth.counter_add regular hcounted hle
    have hcard := growth.card_marked
    rw [population_eq regular]
    dsimp only
    omega

end Step

/-- Wherever a call on a volume is cut off, what it leaves recovers: a call that only gets `k`
writes through, in any state that a run of calls on a new volume leads to. -/
theorem recovers_of_cut {τ : Type} [Store τ] [Reliable τ] {layout : Layout} {blockSize : UInt32}
    {blank formatted : τ} (hformat : format blockSize blank = .ok layout formatted)
    (calls : List (UInt64 × Call)) (now : UInt64) (call : Call) (k : Nat) :
    Recovers layout blockSize call (Call.runAll layout calls formatted).2
      ((call.run layout now).outcome
        (⟨(Call.runAll layout calls formatted).2, k⟩ : Limited τ)).2.store := by
  obtain ⟨hsize, ⟨branches, sound⟩, -⟩ := sound_of_format hformat calls
  rw [← hsize] at sound
  generalize (Call.runAll layout calls formatted).2 = before at sound ⊢
  have hstart := Eq.refl (Store.size (⟨before, k⟩ : Limited τ))
  have hrun : (call.run layout now : Edit (Limited τ) Reply).Ends (Store.size before)
      (content before) _ := Call.run_ends sound now call
  obtain ⟨hsize', hsettled⟩ := hrun.outcome hstart rfl
  obtain ⟨news, taken, counted, branches', hevolved, hnews, hle, hge⟩ := hsettled.evolved_near
  refine recovers_of_evolved sound hsize' hevolved hnews hle hge fun branch h hfile hwritten => ?_
  have hsame : (call.run layout now : Edit (Limited τ) Reply).Ends (Store.size before)
      (content before) fun _ m' => m' = content before :=
    Call.run_in_file sound now h hfile hwritten
  exact (hsame.outcome hstart rfl).2

theorem recovers_on_blank :
    ∃ volume, format 512 (blank 4195840) = .ok smallest volume ∧
      ∃ before, before = (Call.runAll smallest
          [(5, .makeDirectory "/d"), (6, .createFile "/d/a")] volume).2 ∧
        Recovers smallest 512 (.write "/d/a" 600 [1].toByteArray) before
          (((Call.write "/d/a" 600 [1].toByteArray).run smallest 7).outcome
            (⟨before, 3⟩ : Limited Memory)).2.store := by
  obtain ⟨volume, hformat⟩ := format_blank
  exact ⟨volume, hformat, _, rfl, recovers_of_cut hformat _ 7 _ 3⟩

end ChainFs.Volume
