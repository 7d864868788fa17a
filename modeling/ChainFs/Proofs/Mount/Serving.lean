import ChainFs.Proofs.Mount.Inodes
import ChainFs.Proofs.Path
import ChainFs.Proofs.Volume.Provenance

/-!
# What serving keeps

A request is work in several steps on a state that has two parts, the table of numbers and the
store, and each step may fail. The invariant has to hold behind a failure too, for the next request
comes to the state that is left. `Serving.Leads` says this once: from a charted state, the work ends
in a charted state to which the first one has moved, and if it has an answer, then the answer is as
stated. The branches are part of what it speaks of, since paths get their meaning from them.

* `Mount.Charted` — a volume in order, and a table of numbers in which every path is spelled out
  from the root and leads somewhere;
* `Mount.Moved` — numbers keep their paths and paths keep their branches;
* `Mount.Points` — a number stands for a branch, and goes on doing so;
* `Mount.Serving.Leads` — some work leads from such a state to another, with the rules for its
  steps.
-/

namespace ChainFs.Mount

open Store
open Volume (Branch Branches Sound Mapped Dated Evolved Settled)

variable {τ : Type}

/-- From one state to a later one. -/
structure Moved (state : State τ) (branches : Branches) (state' : State τ) (branches' : Branches) :
    Prop where
  grows : state.inodes.Extends state'.inodes
  keeps : ∀ {names branch}, branches names = some branch →
    ∃ branch', branches' names = some branch' ∧ branch.Keeps branch'

variable {state state' state'' : State τ} {branches branches' branches'' : Branches}

/-- Nothing has moved. -/
theorem Moved.refl (state : State τ) (branches : Branches) : Moved state branches state branches :=
  ⟨.refl _, fun {_ branch} h => ⟨branch, h, .refl branch⟩⟩

/-- Moves follow each other. -/
theorem Moved.trans (h : Moved state branches state' branches')
    (h' : Moved state' branches' state'' branches'') : Moved state branches state'' branches'' := by
  refine ⟨h.grows.trans h'.grows, fun {names branch} hbranch => ?_⟩
  obtain ⟨branch', hbranch', hkeeps⟩ := h.keeps hbranch
  obtain ⟨branch'', hbranch'', hkeeps'⟩ := h'.keeps hbranch'
  exact ⟨branch'', hbranch'', hkeeps.trans hkeeps'⟩

/-- A number stands for the branch of the names. -/
structure Points (state : State τ) (branches : Branches) (number : Nat) (names : List String)
    (kind : Kind) : Prop where
  path_eq : state.inodes.path? number = some (Path.absolute names)
  plain : ∀ name ∈ names, Path.Plain name
  branch : ∃ branch, branches names = some branch ∧ branch.node.record.kind = kind

/-- A number goes on standing for the same branch. -/
theorem Points.moved {number : Nat} {names : List String} {kind : Kind}
    (points : Points state branches number names kind)
    (moved : Moved state branches state' branches') :
    Points state' branches' number names kind := by
  obtain ⟨branch, hbranch, rfl⟩ := points.branch
  obtain ⟨branch', hbranch', hkeeps⟩ := moved.keeps hbranch
  exact ⟨moved.grows points.path_eq, points.plain, branch', hbranch', hkeeps.kind_eq⟩

variable [Store τ] [Reliable τ] {layout : Layout} {blockSize : UInt32} {times : List UInt64}

/-- A volume in order and a table of numbers in order, in which each path leads to a branch. -/
structure Charted (layout : Layout) (blockSize : UInt32) (times : List UInt64) (state : State τ)
    (branches : Branches) : Prop where
  sound : Sound layout blockSize (Store.size state.store) (content state.store) branches
  dated : Dated branches times
  paired : state.inodes.Paired
  known : ∀ {number path}, state.inodes.path? number = some path → ∃ names branch,
    (∀ name ∈ names, Path.Plain name) ∧ path = Path.absolute names ∧ branches names = some branch

/-! ## Work on a request -/

namespace Serving

variable {α β : Type}

/-- The work leads from a charted state to a charted one, and what it brings is as said. -/
def Leads (layout : Layout) (blockSize : UInt32) (times : List UInt64) (act : Serving τ α)
    (state : State τ) (branches : Branches) (post : α → State τ → Branches → Prop) : Prop :=
  match act state with
  | .ok a state' => ∃ branches', Charted layout blockSize times state' branches' ∧
      Moved state branches state' branches' ∧ post a state' branches'
  | .error _ state' => ∃ branches', Charted layout blockSize times state' branches' ∧
      Moved state branches state' branches'

namespace Leads

variable {post post' : α → State τ → Branches → Prop} {act : Serving τ α}

/-- A conclusion that is weaker. -/
theorem mono (h : Leads layout blockSize times act state branches post)
    (hpost : ∀ a state' branches', Charted layout blockSize times state' branches' →
      post a state' branches' → post' a state' branches') :
    Leads layout blockSize times act state branches post' := by
  unfold Leads at *
  cases hact : act state with
  | ok a state' =>
    rw [hact] at h
    obtain ⟨branches', charted, moved, hpost'⟩ := h
    exact ⟨branches', charted, moved, hpost _ _ _ charted hpost'⟩
  | error e state' =>
    rw [hact] at h
    exact h

section Rules

variable (charted : Charted layout blockSize times state branches)
include charted

/-- An answer at once. -/
theorem pure {a : α} (h : post a state branches) :
    Leads layout blockSize times (Pure.pure a) state branches post :=
  ⟨branches, charted, .refl state branches, h⟩

/-- A failure leaves the state as it is. -/
theorem throw {failure : Failure} :
    Leads layout blockSize times (MonadExcept.throw failure) state branches post :=
  ⟨branches, charted, .refl state branches⟩

/-- A result that was known before. -/
theorem ofExcept {result : Except Error α} (h : ∀ a, result = .ok a → post a state branches) :
    Leads layout blockSize times (Serving.ofExcept result) state branches post := by
  unfold Leads Serving.ofExcept
  cases result with
  | ok a => exact ⟨branches, charted, .refl state branches, h a rfl⟩
  | error e => exact ⟨branches, charted, .refl state branches⟩

/-- A question is answered from the store as it is. -/
theorem ask {question : τ → Except Error α}
    (h : ∀ a, question state.store = .ok a → post a state branches) :
    Leads layout blockSize times (Serving.ask question) state branches post := by
  unfold Leads Serving.ask
  cases hanswer : question state.store with
  | ok a => exact ⟨branches, charted, .refl state branches, h a hanswer⟩
  | error e => exact ⟨branches, charted, .refl state branches⟩

/-- A number is handed out for a path that leads to a branch. -/
theorem inodeFor {names : List String} {branch : Branch} (hplain : ∀ name ∈ names, Path.Plain name)
    (hbranch : branches names = some branch) {post : Nat → State τ → Branches → Prop}
    (h : ∀ inode inodes', state.inodes.Extends inodes' →
      Points (State.mk inodes' state.store) branches inode names branch.node.record.kind →
      post inode ⟨inodes', state.store⟩ branches) :
    Leads layout blockSize times (Serving.inodeFor (Path.absolute names)) state branches post := by
  obtain ⟨hpath, hextends, hpaired, hpaths⟩ :=
    Inodes.assign_spec charted.paired (Path.absolute names)
  refine ⟨branches, ⟨charted.sound, charted.dated, hpaired, fun {number path} hnumber => ?_⟩,
    ⟨hextends, fun {_ branch} h => ⟨branch, h, .refl branch⟩⟩, ?_⟩
  · rcases hpaths hnumber with hknown | rfl
    · exact charted.known hknown
    · exact ⟨names, branch, hplain, rfl, hbranch⟩
  · exact h _ _ hextends ⟨hpath, hplain, branch, hbranch, rfl⟩

/-- A change keeps a volume in order, and its branches. -/
theorem edit {act : Edit τ α} {target news : List String}
    (hsettled : act.Ends (Store.size state.store) (content state.store)
      (Settled τ layout (content state.store) branches target news))
    (hdated : act.Ends (Store.size state.store) (content state.store) fun _ m' =>
      ∃ branches', Mapped layout m' branches' ∧ Dated branches' times)
    (h : ∀ a state' branches', post a state' branches') :
    Leads layout blockSize times (Serving.edit act) state branches post := by
  have hreached : ∃ branches', Charted layout blockSize times
      ⟨state.inodes, (act.outcome state.store).2⟩ branches' ∧
      Moved state branches ⟨state.inodes, (act.outcome state.store).2⟩ branches' := by
    obtain ⟨hsize, hends⟩ := hsettled.outcome rfl rfl
    obtain ⟨-, branches', mapped', dated'⟩ := hdated.outcome rfl rfl
    obtain ⟨news', taken, branches'', evolved, -⟩ := hends.evolved
    have sound' := charted.sound.of_evolved evolved
    rw [← hsize] at sound'
    -- both speak of the same branches, which the content decides
    obtain rfl := evolved.mapped.unique sound'.regular mapped'
    refine ⟨branches'', ⟨sound', dated', charted.paired, fun {number path} hpath => ?_⟩,
      ⟨.refl _, evolved.keeps⟩⟩
    obtain ⟨names, branch, hplain, hnames, hbranch⟩ := charted.known hpath
    obtain ⟨branch', hbranch', -⟩ := evolved.keeps hbranch
    exact ⟨names, branch', hplain, hnames, hbranch'⟩
  unfold Leads Serving.edit
  unfold Edit.outcome at hreached
  dsimp only
  cases hact : act state.store with
  | ok a after =>
    rw [hact] at hreached
    obtain ⟨branches', charted', moved'⟩ := hreached
    exact ⟨branches', charted', moved', h _ _ _⟩
  | error e after =>
    rw [hact] at hreached
    exact hreached

omit charted in
/-- Steps follow each other. -/
theorem bind {first : Serving τ α} {second : α → Serving τ β} {P : α → State τ → Branches → Prop}
    {post : β → State τ → Branches → Prop}
    (hfirst : Leads layout blockSize times first state branches P)
    (hsecond : ∀ a state' branches', Charted layout blockSize times state' branches' →
      Moved state branches state' branches' → P a state' branches' →
      Leads layout blockSize times (second a) state' branches' post) :
    Leads layout blockSize times (first >>= second) state branches post := by
  change match EStateM.bind first second state with
    | .ok b state' => ∃ branches', Charted layout blockSize times state' branches' ∧
        Moved state branches state' branches' ∧ post b state' branches'
    | .error _ state' => ∃ branches', Charted layout blockSize times state' branches' ∧
        Moved state branches state' branches'
  unfold Leads at hfirst
  unfold EStateM.bind
  cases hact : first state with
  | error e state' =>
    rw [hact] at hfirst
    exact hfirst
  | ok a state' =>
    rw [hact] at hfirst
    obtain ⟨branches', charted', moved, hmid⟩ := hfirst
    have hlast := hsecond a state' branches' charted' moved hmid
    unfold Leads at hlast
    dsimp only
    cases hrest : second a state' with
    | ok b state'' =>
      rw [hrest] at hlast
      obtain ⟨branches'', charted'', moved', hpost⟩ := hlast
      exact ⟨branches'', charted'', moved.trans moved', hpost⟩
    | error e state'' =>
      rw [hrest] at hlast
      obtain ⟨branches'', charted'', moved'⟩ := hlast
      exact ⟨branches'', charted'', moved.trans moved'⟩

omit charted in
/-- What is made of an answer. -/
theorem map {act : Serving τ α} {f : α → β} {post : β → State τ → Branches → Prop}
    (h : Leads layout blockSize times act state branches fun a => post (f a)) :
    Leads layout blockSize times (f <$> act) state branches post := by
  rw [map_eq_pure_bind]
  exact .bind h fun a _ _ charted' _ hpost => .pure charted' hpost

/-! Steps that leave the state as it is. -/

/-- Past a result that was known before. -/
theorem ofExcept_bind {result : Except Error α} {second : α → Serving τ β}
    {post : β → State τ → Branches → Prop}
    (h : ∀ a, result = .ok a → Leads layout blockSize times (second a) state branches post) :
    Leads layout blockSize times (Serving.ofExcept result >>= second) state branches post := by
  refine .bind (P := fun a state' branches' => state' = state ∧ branches' = branches ∧
    result = .ok a) (.ofExcept charted fun a ha => ⟨rfl, rfl, ha⟩) ?_
  rintro a _ _ - - ⟨rfl, rfl, ha⟩
  exact h a ha

/-- Past a question. -/
theorem ask_bind {question : τ → Except Error α} {second : α → Serving τ β}
    {post : β → State τ → Branches → Prop}
    (h : ∀ a, question state.store = .ok a →
      Leads layout blockSize times (second a) state branches post) :
    Leads layout blockSize times (Serving.ask question >>= second) state branches post := by
  refine .bind (P := fun a state' branches' => state' = state ∧ branches' = branches ∧
    question state.store = .ok a) (.ask charted fun a ha => ⟨rfl, rfl, ha⟩) ?_
  rintro a _ _ - - ⟨rfl, rfl, ha⟩
  exact h a ha

/-- A number that is known stands for a branch. -/
theorem pathOf_bind {inode : Nat} {second : String → Serving τ β}
    {post : β → State τ → Branches → Prop}
    (h : ∀ names kind, Points state branches inode names kind →
      Leads layout blockSize times (second (Path.absolute names)) state branches post) :
    Leads layout blockSize times (Serving.pathOf inode >>= second) state branches post := by
  refine .bind (P := fun path state' branches' => state' = state ∧ branches' = branches ∧
    ∃ names kind, Points state branches inode names kind ∧ path = Path.absolute names) ?_ ?_
  · unfold Leads Serving.pathOf
    cases hpath : state.inodes.path? inode with
    | none => exact ⟨branches, charted, .refl state branches⟩
    | some path =>
      obtain ⟨names, branch, hplain, rfl, hbranch⟩ := charted.known hpath
      exact ⟨branches, charted, .refl state branches, rfl, rfl, names, _,
        ⟨hpath, hplain, branch, hbranch, rfl⟩, rfl⟩
  · rintro _ _ _ - - ⟨rfl, rfl, names, kind, points, rfl⟩
    exact h names kind points

end Rules

end Leads

end Serving

end ChainFs.Mount
