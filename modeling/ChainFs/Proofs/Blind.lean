import ChainFs.Proofs.Block

/-!
# Edits that do not see what unused blocks hold

* `Agree` — two contents with the same superblock and the same blocks in use, which hold the same;
* `Agree.of_growth` — growth by the same blocks keeps them so, if it leaves the same in those blocks
  that it changes;
* `Edit.Blind` — an edit that ends in the same way on stores that agree, and leaves them so. The
  rules take an edit apart along its steps;
* `Block.acquire_blind` — taking a block is such an edit: the block is found by the bitmap alone,
  and is cleared.

To be blind is a property of one edit and two stores. It follows the steps of the edit like
`Edit.Ends`, and a step of which an end is known on each store separately can be taken over from
there by `Edit.Blind.of_ends`.
-/

namespace ChainFs

open Store Bitmap Block

variable {layout : Layout} {m m' n n' : Content}

/-- The superblock says the same, and the same blocks are in use and hold the same. -/
structure Agree (layout : Layout) (m n : Content) : Prop where
  superblock : ∀ x, layout.superblockAddress ≤ x → x < counterAddress layout → n x = m x
  marked_eq : marked layout n = marked layout m
  counter_eq : counter layout n = counter layout m
  blocks : ∀ a ∈ marked layout m, ∀ x, layout.InBlock a x → n x = m x

namespace Agree

theorem refl (layout : Layout) (m : Content) : Agree layout m m :=
  ⟨fun _ _ _ => rfl, rfl, rfl, fun _ _ _ _ => rfl⟩

/-- Growth by the same blocks on both sides. -/
theorem of_growth (agree : Agree layout m n) (regular : layout.Regular) {touched taken : List Nat}
    {counted : Nat} (growth : Growth layout m touched taken counted m')
    (growth' : Growth layout n touched taken counted n')
    (hsame : ∀ a ∈ touched ++ taken, ∀ x, layout.InBlock a x → n' x = m' x) :
    Agree layout m' n' where
  superblock x hle hlt := by
    have hend := Elsewhere.counter_end regular
    have hbitmap : x < layout.bitmapAddress := by omega
    rw [growth.same x (.of_lt regular growth.covered hbitmap (.inl hlt)),
      growth'.same x (.of_lt regular growth'.covered hbitmap (.inl hlt)),
      agree.superblock x hle hlt]
  marked_eq := by rw [growth'.marked_eq, growth.marked_eq, agree.marked_eq]
  counter_eq := by rw [growth'.counter_eq, growth.counter_eq, agree.counter_eq]
  blocks a ha x hx := by
    by_cases hmem : a ∈ touched ++ taken
    · exact hsame a hmem x hx
    obtain ⟨htouched, htaken⟩ := not_or.mp (mt List.mem_append.mpr hmem)
    rw [growth.marked_eq, Finset.mem_union, List.mem_toFinset] at ha
    have hold := ha.resolve_right htaken
    rw [growth.same_of_marked regular hold htouched hx,
      growth'.same_of_marked regular (agree.marked_eq ▸ hold) htouched hx, agree.blocks a hold x hx]

/-- The same bytes written into a block that is in use. -/
theorem put (agree : Agree layout m n) (regular : layout.Regular) {a offset : Nat}
    {bytes : ByteArray} (ha : a ∈ marked layout m) (hle : a ≤ offset)
    (hend : offset + bytes.size ≤ a + layout.blockSize) :
    Agree layout (m.put offset bytes) (n.put offset bytes) := by
  have hcovered := marked_subset_covered ha
  refine agree.of_growth regular (.of_put regular m offset bytes hcovered hle hend)
    (.of_put regular n offset bytes hcovered hle hend) fun b hb x hx => ?_
  obtain rfl : b = a := by simpa using hb
  unfold Content.put
  split
  · rfl
  · exact agree.blocks b ha x hx

end Agree

namespace Edit

variable {σ α β : Type} [Store σ] [Reliable σ] {size : Nat}

/-- How an edit of two stores has ended: with the same result, in stores that agree. -/
structure Alongside (layout : Layout) (size : Nat) (m : Content) (good : α → Content → Prop)
    (end₁ end₂ : Except Error α × σ) : Prop where
  result : end₂.1 = end₁.1
  size₁ : Store.size end₁.2 = size
  size₂ : Store.size end₂.2 = size
  agree : Agree layout (content end₁.2) (content end₂.2)
  kept : marked layout m ⊆ marked layout (content end₁.2)
  good : ∀ a, end₁.1 = .ok a → good a (content end₁.2)

/-- From stores that agree an edit ends in the same way, and its value is as `good` says. -/
def Blind (act : Edit σ α) (layout : Layout) (size : Nat) (m : Content)
    (good : α → Content → Prop) : Prop :=
  ∀ store store' : σ, Store.size store = size → Store.size store' = size → content store = m →
    Agree layout m (content store') →
    Alongside layout size m good (act.outcome store) (act.outcome store')

namespace Blind

variable {act : Edit σ α} {P : α → Content → Prop} {Q : β → Content → Prop}

theorem mono {P' : α → Content → Prop} (h : act.Blind layout size m P)
    (hpost : ∀ a m', P a m' → P' a m') : act.Blind layout size m P' := by
  intro store store' hsize hsize' hcontent hagree
  obtain ⟨hresult, h₁, h₂, hagree', hkept, hgood⟩ := h store store' hsize hsize' hcontent hagree
  exact ⟨hresult, h₁, h₂, hagree', hkept, fun a ha => hpost a _ (hgood a ha)⟩

/-- What is known of an edit of one store is known of an edit of both. -/
theorem strengthen {post : Except Error α → Content → Prop} (h : act.Blind layout size m P)
    (hends : act.Ends size m post) :
    act.Blind layout size m fun a m' => P a m' ∧ post (.ok a) m' := by
  intro store store' hsize hsize' hcontent hagree
  obtain ⟨hresult, h₁, h₂, hagree', hkept, hgood⟩ := h store store' hsize hsize' hcontent hagree
  refine ⟨hresult, h₁, h₂, hagree', hkept, fun a ha => ⟨hgood a ha, ?_⟩⟩
  exact ha ▸ (hends.outcome hsize hcontent).2

/-- An edit of which it is known, for each store by itself, what it ends in. -/
theorem of_ends {post : Content → Except Error α → Content → Prop}
    (hends : ∀ n, Agree layout m n → act.Ends size n (post n))
    (h : ∀ n r r' m' n', Agree layout m n → post m r m' → post n r' n' →
      r' = r ∧ Agree layout m' n' ∧ marked layout m ⊆ marked layout m' ∧
        ∀ a, r = .ok a → P a m') : act.Blind layout size m P := by
  intro store store' hsize hsize' hcontent hagree
  obtain ⟨h₁, hpost⟩ := (hends m (.refl layout m)).outcome hsize hcontent
  obtain ⟨h₂, hpost'⟩ := (hends _ hagree).outcome hsize' rfl
  obtain ⟨hresult, hagree', hkept, hgood⟩ := h _ _ _ _ _ hagree hpost hpost'
  exact ⟨hresult, h₁, h₂, hagree', hkept, hgood⟩

/-- An edit that has one result and changes nothing. -/
theorem of_unchanged {result : Except Error α}
    (hends : ∀ n, Agree layout m n → act.Ends size n fun r n' => r = result ∧ n' = n) :
    act.Blind layout size m fun _ _ => True := by
  refine of_ends hends fun n r r' m' n' hagree hpost hpost' => ?_
  obtain ⟨rfl, rfl⟩ := hpost
  obtain ⟨rfl, rfl⟩ := hpost'
  exact ⟨rfl, hagree, Finset.Subset.refl _, fun _ _ => trivial⟩

/-- Steps that are blind one by one. -/
theorem bind {first : Edit σ α} {second : α → Edit σ β} (hfirst : first.Blind layout size m P)
    (hsecond : ∀ a m', marked layout m ⊆ marked layout m' → P a m' →
      (second a).Blind layout size m' Q) : (first >>= second).Blind layout size m Q := by
  intro store store' hsize hsize' hcontent hagree
  obtain ⟨hresult, h₁, h₂, hagree', hkept, hgood⟩ :=
    hfirst store store' hsize hsize' hcontent hagree
  rw [outcome_bind, outcome_bind]
  rcases hend : first.outcome store with ⟨e | a, after⟩
  all_goals
    rcases hend' : first.outcome store' with ⟨r, after'⟩
    rw [hend] at hresult h₁ hagree' hkept hgood
    rw [hend'] at hresult h₂ hagree'
    obtain rfl := hresult
  · exact ⟨rfl, h₁, h₂, hagree', hkept, fun b hb => nomatch hb⟩
  · have hmid := hsecond a (content after) hkept (hgood a rfl)
    obtain ⟨hresult, h₁, h₂, hagree'', hkept', hgood'⟩ := hmid after after' h₁ h₂ rfl hagree'
    exact ⟨hresult, h₁, h₂, hagree'', hkept.trans hkept', hgood'⟩

theorem map {f : α → β} (h : act.Blind layout size m fun a => Q (f a)) :
    (f <$> act).Blind layout size m Q := by
  intro store store' hsize hsize' hcontent hagree
  obtain ⟨hresult, h₁, h₂, hagree', hkept, hgood⟩ := h store store' hsize hsize' hcontent hagree
  rw [outcome_map, outcome_map]
  refine ⟨congrArg (Except.map f) hresult, h₁, h₂, hagree', hkept, fun b hb => ?_⟩
  rcases hr : (act.outcome store).1 with e | a
  · rw [hr] at hb
    cases hb
  · rw [hr] at hb
    cases hb
    exact hgood a hr

/-- A question that has the same answer on all stores that agree. -/
theorem ask {question : σ → Except Error α}
    (h : ∀ store store', Store.size store = size → Store.size store' = size →
      content store = m → Agree layout m (content store') → question store' = question store)
    (hgood : ∀ store a, Store.size store = size → content store = m →
      question store = .ok a → P a m) : (Edit.ask question).Blind layout size m P := by
  intro store store' hsize hsize' hcontent hagree
  rw [outcome_ask, outcome_ask, h store store' hsize hsize' hcontent hagree]
  subst hcontent
  exact ⟨rfl, hsize, hsize', hagree, Finset.Subset.refl _, fun a => hgood store a hsize rfl⟩

/-- A step that asks and finds the same answer on all stores that agree. -/
theorem ask_bind {question : σ → Except Error α} {second : α → Edit σ β} {a : α}
    (h : ∀ store, Store.size store = size → Agree layout m (content store) →
      question store = .ok a) (hsecond : (second a).Blind layout size m Q) :
    (Edit.ask question >>= second).Blind layout size m Q := by
  intro store store' hsize hsize' hcontent hagree
  rw [outcome_bind, outcome_bind, outcome_ask, outcome_ask,
    h store hsize (hcontent ▸ .refl layout m), h store' hsize' hagree]
  exact hsecond store store' hsize hsize' hcontent hagree

theorem ofExcept {r : Except Error α} (h : ∀ a, r = .ok a → P a m) :
    (Edit.ofExcept r : Edit σ α).Blind layout size m P :=
  ask (fun _ _ _ _ _ _ => rfl) fun _ a _ _ => h a

theorem ofExcept_bind {r : Except Error α} {second : α → Edit σ β} {a : α} (h : r = .ok a)
    (hsecond : (second a).Blind layout size m Q) :
    (Edit.ofExcept r >>= second).Blind layout size m Q :=
  ask_bind (fun _ _ _ => h) hsecond

theorem pure {a : α} (h : P a m) : (Pure.pure a : Edit σ α).Blind layout size m P := by
  intro store store' hsize hsize' hcontent hagree
  subst hcontent
  exact ⟨rfl, hsize, hsize', hagree, Finset.Subset.refl _, fun b hb => Except.ok.inj hb ▸ h⟩

theorem throw {e : Error} : (MonadExcept.throw e : Edit σ α).Blind layout size m P := by
  intro store store' hsize hsize' hcontent hagree
  subst hcontent
  exact ⟨rfl, hsize, hsize', hagree, Finset.Subset.refl _, fun b hb => nomatch hb⟩

/-- A write into a block that is in use. -/
theorem write (regular : layout.Regular) (hsize : layout.endAddress ≤ size) {a offset : Nat}
    {bytes : ByteArray} (ha : a ∈ marked layout m) (hle : a ≤ offset)
    (hend : offset + bytes.size ≤ a + layout.blockSize) :
    (Store.write offset bytes : Edit σ Unit).Blind layout size m fun _ m' =>
      m' = m.put offset bytes := by
  have hcovered := marked_subset_covered ha
  have hfits := regular.end_of_mem hcovered
  have hends : ∀ n, Agree layout m n → (Store.write offset bytes : Edit σ Unit).Ends size n
      fun r n' => r = .ok () ∧ n' = n.put offset bytes := fun n _ =>
    .write (by omega) ⟨rfl, rfl⟩ fun e he => absurd he (Reliable.not_fault e)
  refine of_ends hends fun n r r' m' n' hagree hpost hpost' => ?_
  obtain ⟨rfl, rfl⟩ := hpost
  obtain ⟨rfl, rfl⟩ := hpost'
  refine ⟨rfl, hagree.put regular ha hle hend, fun b hb => ?_, fun _ _ => rfl⟩
  exact (Growth.of_put regular m offset bytes hcovered hle hend).marked_mono hb

end Blind

end Edit

/-- Taking a block does not depend on what unused blocks hold, and the block is cleared. -/
theorem Block.acquire_blind {σ : Type} [Store σ] [Reliable σ] {size : Nat}
    (regular : layout.Regular) (hsize : layout.endAddress ≤ size) :
    (acquire layout : Edit σ Nat).Blind layout size m fun a m' => a ∈ marked layout m' := by
  refine .of_ends (fun n _ => acquire_ends regular hsize) fun n r r' m' n' hagree hpost hpost' => ?_
  rcases hpost with ⟨a, rfl, growth, hfirst, hzero⟩ | ⟨rfl, hfull, rfl⟩ | ⟨e, spare, rfl, he, -⟩
  · have ha := growth.taken_covered a (List.mem_singleton_self a)
    have hfree := growth.fresh a (List.mem_singleton_self a)
    rcases hpost' with ⟨b, rfl, growth', hfirst', hzero'⟩ | ⟨-, hfull', -⟩ | ⟨e, spare, rfl, he, -⟩
    · -- both are the first block that is not in use
      have hb := growth'.taken_covered b (List.mem_singleton_self b)
      have hfree' := growth'.fresh b (List.mem_singleton_self b)
      rw [hagree.marked_eq] at hfirst' hfree'
      obtain rfl : a = b := by
        rcases Nat.lt_trichotomy a b with hlt | rfl | hlt
        · exact absurd (hfirst' a ha hlt) hfree
        · rfl
        · exact absurd (hfirst b hb hlt) hfree'
      refine ⟨rfl, hagree.of_growth regular growth growth' fun c hc x hx => ?_,
        fun c hc => growth.marked_mono hc, fun c hc => ?_⟩
      · obtain rfl : c = a := by simpa using hc
        rw [hzero x hx, hzero' x hx]
      · exact Except.ok.inj hc ▸ growth.taken_marked (List.mem_singleton_self a)
    · rw [hagree.marked_eq] at hfull'
      exact absurd (hfull' ▸ ha) hfree
    · exact absurd he (Reliable.not_fault e)
  · rcases hpost' with ⟨b, rfl, growth', -⟩ | ⟨rfl, -, rfl⟩ | ⟨e, spare, rfl, he, -⟩
    · have hb := growth'.taken_covered b (List.mem_singleton_self b)
      have hfree' := growth'.fresh b (List.mem_singleton_self b)
      rw [hagree.marked_eq, hfull] at hfree'
      exact absurd hb hfree'
    · exact ⟨rfl, hagree, Finset.Subset.refl _, fun a ha => nomatch ha⟩
    · exact absurd he (Reliable.not_fault e)
  · exact absurd he (Reliable.not_fault e)

end ChainFs
