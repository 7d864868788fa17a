import ChainFs.Proofs.Store

/-!
# What edits end in

`Edit.Ends act size m post` says that from every store of `size` bytes with content `m` the edit
`act` ends in a result and a content that `post` allows, and that the store keeps its size. The
rules take an edit apart along its steps. A write has two ends, the second one where it fails and
changes nothing, and so a statement about an edit covers every point where it may be cut off.

No step is ever carried out in what comes later. A function of the volume is written with `>>=`, its
statement is put together from those of its steps in the same order, and what one step promises of
the content is what the next one starts from.
-/

namespace ChainFs.Edit

open Store

variable {σ α β : Type} [Store σ] [Faithful σ]
variable {size : Nat} {m : Content}

/-- From every store of a size and a content, an edit ends as `post` allows. -/
def Ends (act : Edit σ α) (size : Nat) (m : Content) (post : Except Error α → Content → Prop) :
    Prop :=
  ∀ store : σ, Store.size store = size → content store = m →
    match act store with
    | .ok a after => Store.size after = size ∧ post (.ok a) (content after)
    | .error e after => Store.size after = size ∧ post (.error e) (content after)

/-- What an edit comes to: its result, and the store it leaves. -/
def outcome (act : Edit σ α) (store : σ) : Except Error α × σ :=
  match act store with
  | .ok a after => (.ok a, after)
  | .error e after => (.error e, after)

section Outcome

omit [Store σ] [Faithful σ]

/-- A step and those after it, which see the store that it leaves. -/
theorem outcome_bind (first : Edit σ α) (second : α → Edit σ β) (store : σ) :
    (first >>= second).outcome store =
      match first.outcome store with
      | (.ok a, after) => (second a).outcome after
      | (.error e, after) => (.error e, after) := by
  change outcome (EStateM.bind first second) store = _
  simp only [outcome, EStateM.bind]
  cases first store <;> rfl

/-- Steps that come to a value: the first one does, and those after it go on from there. -/
theorem of_outcome_bind {first : Edit σ α} {second : α → Edit σ β} {store after : σ} {b : β}
    (h : (first >>= second).outcome store = (.ok b, after)) :
    ∃ a next, first.outcome store = (.ok a, next) ∧ (second a).outcome next = (.ok b, after) := by
  rw [outcome_bind] at h
  rcases hfirst : first.outcome store with ⟨e | a, next⟩
  · rw [hfirst] at h
    cases h
  · rw [hfirst] at h
    exact ⟨a, next, rfl, h⟩

/-- What follows a step has to be the same only where the step comes to a value. -/
theorem outcome_bind_congr {first : Edit σ α} {second second' : α → Edit σ β} {store : σ}
    (h : ∀ a next, first.outcome store = (.ok a, next) →
      (second a).outcome next = (second' a).outcome next) :
    (first >>= second).outcome store = (first >>= second').outcome store := by
  rw [outcome_bind, outcome_bind]
  rcases hfirst : first.outcome store with ⟨e | a, next⟩
  · rfl
  · exact h a next hfirst

theorem outcome_map (f : α → β) (act : Edit σ α) (store : σ) :
    (f <$> act).outcome store = ((act.outcome store).1.map f, (act.outcome store).2) := by
  change outcome (EStateM.map f act) store = _
  simp only [outcome, EStateM.map]
  cases act store <;> rfl

/-- An operation on a store inside something larger comes to what it comes to on that store. -/
theorem outcome_of_inside {τ : Type} {act : Edit σ α} {wrapped : Edit τ α} {store : σ} {whole : τ}
    {putBack : σ → τ} (h : wrapped whole = act.inside store putBack) :
    wrapped.outcome whole = ((act.outcome store).1, putBack (act.outcome store).2) := by
  rw [outcome, h, inside, outcome]
  cases act store <;> rfl

/-- A question leaves the store as it is. -/
theorem outcome_ask (question : σ → Except Error α) (store : σ) :
    (ask question).outcome store = (question store, store) := by
  simp only [outcome, ask]
  cases question store <;> rfl

end Outcome

namespace Ends

variable {act : Edit σ α} {post post' : Except Error α → Content → Prop}

/-- What an edit ends in, for a given store: with a value. -/
theorem of_ok (h : act.Ends size m post) {store after : σ} {a : α}
    (hsize : Store.size store = size) (hcontent : content store = m)
    (hact : act store = .ok a after) : Store.size after = size ∧ post (.ok a) (content after) := by
  have hends := h store hsize hcontent
  rw [hact] at hends
  exact hends

/-- What an edit ends in, for a given store: with a failure. -/
theorem of_error (h : act.Ends size m post) {store after : σ} {e : Error}
    (hsize : Store.size store = size) (hcontent : content store = m)
    (hact : act store = .error e after) :
    Store.size after = size ∧ post (.error e) (content after) := by
  have hends := h store hsize hcontent
  rw [hact] at hends
  exact hends

/-- What an edit ends in, for a given store. -/
theorem outcome (h : act.Ends size m post) {store : σ} (hsize : Store.size store = size)
    (hcontent : content store = m) :
    Store.size (act.outcome store).2 = size ∧
      post (act.outcome store).1 (content (act.outcome store).2) := by
  have hends := h store hsize hcontent
  unfold Edit.outcome
  cases hact : act store with
  | ok a after =>
    rw [hact] at hends
    exact hends
  | error e after =>
    rw [hact] at hends
    exact hends

theorem mono (h : act.Ends size m post) (hpost : ∀ r m', post r m' → post' r m') :
    act.Ends size m post' := by
  intro store hsize hcontent
  have hends := h store hsize hcontent
  cases hact : act store with
  | ok a after =>
    rw [hact] at hends
    exact ⟨hends.1, hpost _ _ hends.2⟩
  | error e after =>
    rw [hact] at hends
    exact ⟨hends.1, hpost _ _ hends.2⟩

theorem pure {a : α} (h : post (.ok a) m) : (Pure.pure a : Edit σ α).Ends size m post := by
  intro store hsize hcontent
  exact ⟨hsize, hcontent ▸ h⟩

theorem throw {e : Error} (h : post (.error e) m) :
    (MonadExcept.throw e : Edit σ α).Ends size m post := by
  intro store hsize hcontent
  exact ⟨hsize, hcontent ▸ h⟩

/-- Steps follow each other: what holds after the first one is where the second one starts, and a
failure of the first one is a failure of both. -/
theorem bind {first : Edit σ α} {second : α → Edit σ β} {mid : Except Error α → Content → Prop}
    {post : Except Error β → Content → Prop} (hfirst : first.Ends size m mid)
    (herror : ∀ e m', mid (.error e) m' → post (.error e) m')
    (hsecond : ∀ a m', mid (.ok a) m' → (second a).Ends size m' post) :
    (first >>= second).Ends size m post := by
  intro store hsize hcontent
  have hends := hfirst store hsize hcontent
  change match EStateM.bind first second store with
    | .ok b after => Store.size after = size ∧ post (.ok b) (content after)
    | .error e after => Store.size after = size ∧ post (.error e) (content after)
  unfold EStateM.bind
  cases hact : first store with
  | ok a after =>
    rw [hact] at hends
    exact hsecond a _ hends.2 after hends.1 rfl
  | error e after =>
    rw [hact] at hends
    exact ⟨hends.1, herror _ _ hends.2⟩

theorem map {f : α → β} {post : Except Error β → Content → Prop}
    (h : act.Ends size m fun r => post (r.map f)) : (f <$> act).Ends size m post := by
  intro store hsize hcontent
  have hends := h store hsize hcontent
  change match EStateM.map f act store with
    | .ok b after => Store.size after = size ∧ post (.ok b) (content after)
    | .error e after => Store.size after = size ∧ post (.error e) (content after)
  unfold EStateM.map
  cases hact : act store with
  | ok a after =>
    rw [hact] at hends
    exact hends
  | error e after =>
    rw [hact] at hends
    exact hends

/-- A question whose answer is allowed on all such stores. -/
theorem ask {question : σ → Except Error α}
    (h : ∀ store, Store.size store = size → content store = m → post (question store) m) :
    (Edit.ask question).Ends size m post := by
  intro store hsize hcontent
  have hpost := h store hsize hcontent
  unfold Edit.ask
  cases hr : question store with
  | ok a =>
    rw [hr] at hpost
    exact ⟨hsize, hcontent ▸ hpost⟩
  | error e =>
    rw [hr] at hpost
    exact ⟨hsize, hcontent ▸ hpost⟩

theorem ofExcept {r : Except Error α} (h : post r m) :
    (Edit.ofExcept r : Edit σ α).Ends size m post :=
  ask fun _ _ _ => h

/-- A step that asks and finds an answer. -/
theorem ask_bind {question : σ → Except Error α} {second : α → Edit σ β} {a : α}
    {post : Except Error β → Content → Prop}
    (h : ∀ store, Store.size store = size → content store = m → question store = .ok a)
    (hsecond : (second a).Ends size m post) : (Edit.ask question >>= second).Ends size m post := by
  have hask : (Edit.ask question).Ends size m fun r m' => r = .ok a ∧ m' = m :=
    ask fun store hsize hcontent => ⟨h store hsize hcontent, rfl⟩
  refine bind hask ?_ ?_
  · rintro e m' ⟨hr, -⟩
    cases hr
  · rintro b m' ⟨hr, rfl⟩
    cases hr
    exact hsecond

/-- A step that asks and finds a failure. -/
theorem ask_bind_error {question : σ → Except Error α} {second : α → Edit σ β} {e : Error}
    {post : Except Error β → Content → Prop}
    (h : ∀ store, Store.size store = size → content store = m → question store = .error e)
    (hpost : post (.error e) m) : (Edit.ask question >>= second).Ends size m post := by
  have hask : (Edit.ask question).Ends size m fun r m' => r = .error e ∧ m' = m :=
    ask fun store hsize hcontent => ⟨h store hsize hcontent, rfl⟩
  refine bind hask ?_ ?_
  · rintro e' m' ⟨hr, rfl⟩
    cases hr
    exact hpost
  · rintro b m' ⟨hr, -⟩
    cases hr

theorem ofExcept_bind {r : Except Error α} {second : α → Edit σ β} {a : α}
    {post : Except Error β → Content → Prop} (h : r = .ok a)
    (hsecond : (second a).Ends size m post) :
    (Edit.ofExcept r >>= second).Ends size m post :=
  ask_bind (fun _ _ _ => h) hsecond

theorem ofExcept_bind_error {r : Except Error α} {second : α → Edit σ β} {e : Error}
    {post : Except Error β → Content → Prop} (h : r = .error e) (hpost : post (.error e) m) :
    (Edit.ofExcept r >>= second).Ends size m post :=
  ask_bind_error (fun _ _ _ => h) hpost

/-- A write takes place, or it fails and the content stays. -/
theorem write {offset : Nat} {bytes : ByteArray} {post : Except Error Unit → Content → Prop}
    (hfits : offset + bytes.size ≤ size) (hok : post (.ok ()) (m.put offset bytes))
    (hfault : ∀ e, Fault σ e → post (.error e) m) :
    (Store.write offset bytes : Edit σ Unit).Ends size m post := by
  intro store hsize hcontent
  subst hsize hcontent
  have hends := Faithful.write_ends store hfits
  cases hact : (Store.write offset bytes : Edit σ Unit) store with
  | ok a after =>
    rw [hact] at hends
    exact ⟨hends.1, hends.2 ▸ hok⟩
  | error e after =>
    rw [hact] at hends
    exact ⟨hends.1, hends.2.1 ▸ hfault e hends.2.2⟩

/-- A write as a step before others. -/
theorem write_bind {offset : Nat} {bytes : ByteArray} {second : Unit → Edit σ β}
    {post : Except Error β → Content → Prop} (hfits : offset + bytes.size ≤ size)
    (hfault : ∀ e, Fault σ e → post (.error e) m)
    (hsecond : (second ()).Ends size (m.put offset bytes) post) :
    ((Store.write offset bytes : Edit σ Unit) >>= second).Ends size m post := by
  have hwrite : (Store.write offset bytes : Edit σ Unit).Ends size m fun r m' =>
      r = .ok () ∧ m' = m.put offset bytes ∨ ∃ e, r = .error e ∧ Fault σ e ∧ m' = m :=
    write hfits (.inl ⟨rfl, rfl⟩) fun e he => .inr ⟨e, rfl, he, rfl⟩
  refine bind hwrite ?_ ?_
  · rintro e m' (⟨hr, -⟩ | ⟨e', hr, he, rfl⟩)
    · cases hr
    · cases hr
      exact hfault e he
  · rintro ⟨⟩ m' (⟨-, rfl⟩ | ⟨e', hr, -⟩)
    · exact hsecond
    · cases hr

theorem flush {post : Except Error Unit → Content → Prop} (hok : post (.ok ()) m)
    (hfault : ∀ e, Fault σ e → post (.error e) m) :
    (Store.flush : Edit σ Unit).Ends size m post := by
  intro store hsize hcontent
  subst hsize hcontent
  have hends := Faithful.flush_ends store
  cases hact : (Store.flush : Edit σ Unit) store with
  | ok a after =>
    rw [hact] at hends
    exact ⟨hends.1, hends.2 ▸ hok⟩
  | error e after =>
    rw [hact] at hends
    exact ⟨hends.1, hends.2.1 ▸ hfault e hends.2.2⟩

end Ends

end ChainFs.Edit
