import ChainFs.Proofs.Volume.Steps

/-!
# Paths lead where entries were created

A path is split in more than one way: in front of its last name where an entry is created, at all
slashes where it is looked up, and by steps on the text where paths are made from each other. All of
them go by the names of the path.

* `Volume.Call.run_standing`, `Volume.standing_of_format` — paths lead where they should after any
  calls on a new volume, also if writes failed;
* `Volume.createAt_finds` — where an entry is created that has the names of the path;
* `Volume.paths_agree` — a path leads to what was created at a path of the same names.

Paths are compared by their names, which are a list. Texts come in only where a path is split, and
what was shown of splitting says which names the parts have.
-/

namespace ChainFs.Volume

open Store Directory

section Faithful

variable {σ : Type} [Store σ] [Faithful σ] {layout : Layout} {m : Content} {size : Nat}
  {branches : Branches}

/-- After a call paths lead where they should, even if a write failed. -/
theorem Call.run_standing (standing : Standing layout size m branches) (now : UInt64)
    (call : Call) : (call.run layout now : Edit σ Reply).Ends size m fun _ m' =>
      ∃ branches', Standing layout size m' branches' := by
  have hsettled : ∀ {α : Type} {act : Edit σ α} {target news : List String} (reply : α → Reply),
      act.Ends size m (Settled σ layout m branches target news) →
      (reply <$> act).Ends size m fun _ m' => ∃ branches', Standing layout size m' branches' :=
    fun reply h => .map (h.mono fun _ _ settled => settled.standing standing)
  cases call with
  | write path offset data => exact hsettled _ (write_settled standing now path offset data)
  | create parent name kind => exact hsettled _ (create_settled standing now parent name kind)
  | makeDirectory path => exact hsettled _ (createAt_settled standing now path .directory)
  | createFile path => exact hsettled _ (createAt_settled standing now path .file)
  | _ => exact .map (.ask fun _ _ _ => ⟨branches, standing⟩)

theorem Call.runAll_standing (calls : List (UInt64 × Call)) {store : σ}
    (standing : Standing layout (Store.size store) (content store) branches) :
    ∃ branches', Standing layout (Store.size (Call.runAll layout calls store).2)
      (content (Call.runAll layout calls store).2) branches' := by
  induction calls generalizing store branches with
  | nil => exact ⟨branches, standing⟩
  | cons timed rest ih =>
    obtain ⟨now, call⟩ := timed
    obtain ⟨hsize, branches', standing'⟩ := (Call.run_standing standing now call).outcome rfl rfl
    rw [← hsize] at standing'
    rw [Call.runAll_cons]
    exact ih standing'

/-- After any calls on a new volume paths lead where they should. -/
theorem standing_of_format {blockSize : UInt32} {blank formatted : σ}
    (hformat : format blockSize blank = .ok layout formatted) (calls : List (UInt64 × Call)) :
    ∃ branches, Standing layout (Store.size (Call.runAll layout calls formatted).2)
      (content (Call.runAll layout calls formatted).2) branches :=
  Call.runAll_standing calls (formatted_of_format hformat).sound.standing

/-- An entry that was created is where its names lead. -/
theorem create_finds (standing : Standing layout size m branches) (now : UInt64)
    (parent name : String) (kind : Kind) :
    (create layout now parent name kind : Edit σ Node).Ends size m fun r m' =>
      ∀ node, r = .ok node → ∃ branches' chain, Mapped layout m' branches' ∧
        branches' (Path.components parent ++ [name]) = some ⟨node, chain⟩ := by
  obtain ⟨regular, hfits, mapped⟩ := standing
  rcases hrefusal : createRefusal layout m branches parent name with _ | e
  · obtain ⟨branch, h, hcheck, hnew, hlarge⟩ := of_createRefusal hrefusal
    refine (create_ends regular hfits mapped h now kind hcheck hnew hlarge).mono ?_
    rintro r m' (⟨b, place, added, rfl, hevolved, -⟩ | ⟨taken, rfl, -⟩ | ⟨e, rfl, -⟩) node hnode
    · obtain rfl := Except.ok.inj hnode
      exact ⟨_, [b], hevolved.mapped, Function.update_self ..⟩
    · cases hnode
    · cases hnode
  · refine (create_refused regular hfits mapped now kind hrefusal).mono ?_
    rintro r m' ⟨rfl, rfl⟩ node hnode
    cases hnode

/-- An entry that was created at a path is where the names of the path lead. -/
theorem createAt_finds (standing : Standing layout size m branches) (now : UInt64) (path : String)
    (kind : Kind) : (createAt layout now path kind : Edit σ Node).Ends size m fun r m' =>
      ∀ node, r = .ok node → ∃ branches' chain, Mapped layout m' branches' ∧
        branches' (Path.components path) = some ⟨node, chain⟩ := by
  rcases Path.splitLast_cases path with ⟨-, hsplit⟩ | ⟨parent, name, hsplit, hnames⟩
  · exact .ofExcept_bind_error hsplit fun node hnode => by cases hnode
  · rw [hnames]
    exact .ofExcept_bind hsplit (create_finds standing now parent name kind)

/-- What was created at a path is found at every path with the same names. -/
theorem scan_created {store after : σ}
    (standing : Standing layout (Store.size store) (content store) branches) {now : UInt64}
    {path path' : String} {kind : Kind} {node : Node}
    (hcreate : createAt layout now path kind store = .ok node after)
    (hnames : Path.components path' = Path.components path) :
    scan layout after path' = .ok (some node) := by
  obtain ⟨hsize, hfinds⟩ := (createAt_finds standing now path kind).of_ok rfl rfl hcreate
  obtain ⟨branches', chain, mapped, h⟩ := hfinds node rfl
  rw [scan_eq standing.regular (hsize ▸ standing.fits) mapped, hnames, h]
  rfl

end Faithful

/-- **All ways to split a path agree.** A path without names is not split in front of the last one;
any other is split into a path with the names before and the last name. Where a path leads depends
on nothing but its names. From a canonical path a step down adds a name, and a step up takes it
back. So whatever slashes are in a path at which a directory or a file is created on a volume that
was new once, every path with the same names leads to it. -/
theorem paths_agree :
    (∀ path, Path.components path = [] → Path.splitLast path = .error (.invalidName path)) ∧
    (∀ path, Path.components path ≠ [] → ∃ parent name,
      Path.splitLast path = .ok (parent, name) ∧
        Path.components parent ++ [name] = Path.components path) ∧
    (∀ {σ : Type} [Store σ] (layout : Layout) (store : σ) (path path' : String),
      Path.components path = Path.components path' →
        scan layout store path = scan layout store path') ∧
    (∀ path name, Path.Canonical path → Path.Plain name →
      Path.components (Path.child path name) = Path.components path ++ [name] ∧
        Path.parent (Path.child path name) = path) ∧
    ∀ {σ : Type} [Store σ] [Faithful σ] {layout : Layout} {blockSize : UInt32}
      {blank formatted : σ}, format blockSize blank = .ok layout formatted →
      ∀ (calls : List (UInt64 × Call)) (now : UInt64) {path path' : String} {node : Node}
        {after : σ}, Path.components path' = Path.components path →
        (makeDirectory layout now path (Call.runAll layout calls formatted).2 = .ok node after ∨
          createFile layout now path (Call.runAll layout calls formatted).2 = .ok node after) →
        scan layout after path' = .ok (some node) := by
  refine ⟨fun path hnone => ?_, fun path hsome => ?_, fun layout store path path' hnames => ?_,
    fun path name hcanonical hname => hcanonical.step hname, ?_⟩
  · rcases Path.splitLast_cases path with ⟨-, hsplit⟩ | ⟨parent, name, -, hnames⟩
    · exact hsplit
    · rw [hnone] at hnames
      exact absurd hnames.symm (List.append_ne_nil_of_right_ne_nil _ (List.cons_ne_nil name []))
  · rcases Path.splitLast_cases path with ⟨hnone, -⟩ | ⟨parent, name, hsplit, hnames⟩
    · exact absurd hnone hsome
    · exact ⟨parent, name, hsplit, hnames.symm⟩
  · rw [scan, scan, hnames]
  · intro σ _ _ layout blockSize blank formatted hformat calls now path path' node after hnames
    obtain ⟨branches, standing⟩ := standing_of_format hformat calls
    rintro (hcreate | hcreate)
    · exact scan_created standing hcreate hnames
    · exact scan_created standing hcreate hnames

/-- A directory that is created with slashes at both ends is found without. A step down and up comes
back to the canonical path. -/
theorem paths_agree_on_blank :
    (∃ (volume after : Memory) (node : Node), format 512 (blank 4195840) = .ok smallest volume ∧
      makeDirectory smallest 5 "//d/" volume = .ok node after ∧
      scan smallest after "d" = .ok (some node)) ∧
    Path.parent (Path.child "/d" "e") = "/d" := by
  obtain ⟨-, -, -, hsteps, hleads⟩ := paths_agree
  have hcanonical : Path.absolute (Path.components "//d/") = "/d" := by decide +kernel
  have hplain : Path.Plain "e" := ⟨by decide, by decide⟩
  refine ⟨?_, (hsteps "/d" "e" (hcanonical ▸ Path.canonical_absolute "//d/") hplain).2⟩
  obtain ⟨volume, hformat⟩ := format_blank
  have formatted := formatted_of_format hformat
  obtain ⟨branches, step, -⟩ := Call.outcome_step formatted.sound 5 (.makeDirectory "//d/")
  obtain ⟨b, place, rfl, -⟩ := step.of_first_creation formatted
    (show (Call.makeDirectory "//d/").creation = some ("/", "d", .directory) by decide +kernel)
    (by decide +kernel) (by decide +kernel)
  have hold : rootOnly smallest ["d"] = none := rfl
  obtain ⟨node, hnode⟩ := step.created_of_new hold (Function.update_self ..)
  -- what the call answers is what the directory was created as
  rw [Call.run, Edit.outcome_map, Edit.outcome] at hnode
  rcases hcreate : makeDirectory smallest 5 "//d/" volume with ⟨created, after⟩ | ⟨e, after⟩
  · refine ⟨volume, after, created, hformat, hcreate, ?_⟩
    exact hleads hformat [] 5 (by decide +kernel) (.inl hcreate)
  · rw [hcreate] at hnode
    cases hnode

end ChainFs.Volume
