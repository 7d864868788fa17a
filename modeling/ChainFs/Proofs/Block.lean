import ChainFs.Proofs.Growth

/-!
# Taking and returning blocks

Taking a block is three steps, each of which may be the last one: its bit is set, its bytes are
cleared, and the count in the superblock goes up. The counter lies outside of the bitmap if two
blocks have room for it, which `Layout.Roomy` says; so raising it marks no block, and marking a
block leaves the count as it is.

* `Block.acquire_ends` — taking a block is growth by the first free block, which is all zero then.
  A failing write leaves the block unmarked, or marked and not counted;
* `Block.release_ends` — returning a block takes it out of the marked ones.
-/

namespace ChainFs.Block

open Store Bitmap

variable {σ : Type} [Store σ] [Faithful σ]
variable {layout : Layout} {IsSize : Nat → Prop} [Layout.Roomy IsSize]
variable {m m' : Content} {size : Nat}

/-! ## The counter -/

theorem counter_end_le (regular : layout.Arranged IsSize) (hsize : layout.endAddress ≤ size) :
    counterAddress layout + 4 ≤ size := by
  have := Elsewhere.counter_end regular
  have := regular.bitmap_lt_data
  have := regular.data_le_end
  omega

theorem recount_ends (regular : layout.Arranged IsSize) (hsize : layout.endAddress ≤ size)
    (change : Nat → Nat) :
    (recount layout change : Edit σ Unit).Ends size m fun r m' =>
      r = .ok () ∧
        m' = m.put (counterAddress layout) (Bytes.ofNumber 4 (change (counter layout m))) ∨
      ∃ e, r = .error e ∧ Fault σ e ∧ m' = m := by
  have hend := counter_end_le regular hsize
  refine .ask_bind (a := counter layout m) ?_ (.write ?_ (.inl ⟨rfl, rfl⟩) ?_)
  · rintro store rfl rfl
    exact readNumber_eq hend
  · rw [Bytes.size_ofNumber]
    exact hend
  · exact fun e he => .inr ⟨e, rfl, he, rfl⟩

theorem counter_put (layout : Layout) (m : Content) {n : Nat} (hn : n ≤ counterLimit) :
    counter layout (m.put (counterAddress layout) (Bytes.ofNumber 4 n)) = n := by
  rw [counterLimit] at hn
  exact Content.number_put m _ (by omega)

/-- Rewriting the counter marks nothing. -/
theorem marked_put_counter (regular : layout.Arranged IsSize) (m : Content) (n : Nat) :
    marked layout (m.put (counterAddress layout) (Bytes.ofNumber 4 n)) = marked layout m := by
  have hcounter := Elsewhere.counter_end regular
  refine marked_congr regular fun x hx _ => Content.put_outside m ?_
  rw [Bytes.size_ofNumber]
  omega

/-! ## Taking a block -/

/-- The content where a free block was marked. -/
theorem growth_assigned (regular : layout.Arranged IsSize) {a : Nat} (ha : a ∈ layout.covered)
    (hfree : a ∉ marked layout m) : Growth layout m [] [a] 0 (assigned layout m a true) where
  touched_covered := by simp
  nodup := List.nodup_singleton a
  fresh := by simpa using hfree
  marked_eq := by
    rw [marked_assigned regular ha, if_pos rfl]
    ext b
    simp
  counter_eq := by
    have hcounter := Elsewhere.counter_end regular
    have hlimit := counter_le layout m
    have hcount : counter layout (assigned layout m a true) = counter layout m :=
      Content.number_congr fun i hi => assigned_outside regular ha true (by omega)
    rw [hcount]
    omega
  same x hx := assigned_outside regular ha true hx.bitmap

/-- The content where the counter was raised. -/
theorem growth_increment (regular : layout.Arranged IsSize) (m : Content) :
    Growth layout m [] [] 1
      (m.put (counterAddress layout) (Bytes.ofNumber 4 (increment (counter layout m)))) where
  touched_covered := by simp
  nodup := .nil
  fresh := by simp
  marked_eq := by simp [marked_put_counter regular]
  counter_eq := by
    have hle : increment (counter layout m) ≤ counterLimit := Nat.min_le_right ..
    rw [counter_put layout m hle]
    rfl
  same x hx := Content.put_outside m (by rw [Bytes.size_ofNumber]; exact hx.counter)

/-- Taking a block marks the first free block, fills it with zeros and counts it. It ends early if
there is no free block, or at a failing write. -/
theorem acquire_ends (regular : layout.Arranged IsSize) (hsize : layout.endAddress ≤ size) :
    (acquire layout : Edit σ Nat).Ends size m fun r m' =>
      (∃ a, r = .ok a ∧ Growth layout m [] [a] 1 m' ∧
        (∀ b ∈ layout.covered, b < a → b ∈ marked layout m) ∧
        ∀ x, layout.InBlock a x → m' x = 0) ∨
      (r = .error .outOfSpace ∧ marked layout m = layout.covered ∧ m' = m) ∨
      ∃ e spare, r = .error e ∧ Fault σ e ∧ Growth layout m [] spare 0 m' ∧
        spare.length ≤ 1 := by
  by_cases hfull : marked layout m = layout.covered
  · -- all blocks are in use, and the search says so
    refine .ask_bind_error (e := .outOfSpace) ?_ (.inr (.inl ⟨rfl, hfull, rfl⟩))
    rintro store rfl rfl
    rcases nextFree_spec regular hsize with ⟨a, ha, hfree, -⟩ | ⟨-, hnone⟩
    · exact absurd (hfull ▸ ha) hfree
    · exact hnone
  · obtain ⟨a, ha, hfree, hfirst, hfound⟩ := exists_nextFree σ regular hsize hfull
    have hend := regular.end_of_mem ha
    have hmark := growth_assigned regular ha hfree
    have hzeros := Growth.of_put regular (assigned layout m a true) a
      (Bytes.zeros layout.blockSize) ha (Nat.le_refl a) (by rw [Bytes.size_zeros])
    have hclear := hmark.trans hzeros (by simp)
    refine .ask_bind hfound (.bind (assign_ends regular hsize ha true) ?_ ?_)
    · rintro e m' (⟨hr, -⟩ | ⟨e', hr, he, rfl⟩)
      · cases hr
      · cases hr
        -- not even the mark was written
        exact .inr (.inr ⟨e, [], rfl, he, Growth.refl .., by simp⟩)
    · rintro was m' (⟨hr, rfl⟩ | ⟨e', hr, -⟩)
      · obtain rfl : was = false := by
          simpa [hfree] using Except.ok.inj hr
        -- from here on the block is marked, and what fails leaves it uncounted
        refine .write_bind (by rw [Bytes.size_zeros]; omega) ?_ ?_
        · exact fun e he => .inr (.inr ⟨e, [a], rfl, he, hmark, by simp⟩)
        · refine .bind (recount_ends regular hsize increment) ?_ ?_
          · rintro e m' (⟨hr, -⟩ | ⟨e', hr, he, rfl⟩)
            · cases hr
            · cases hr
              exact .inr (.inr ⟨e, [a], rfl, he, hclear, by simp⟩)
          · rintro ⟨⟩ m' (⟨-, rfl⟩ | ⟨e', hr, -⟩)
            · refine .pure (.inl ⟨a, rfl, ?_, hfirst, fun x hx => ?_⟩)
              · exact hclear.trans (growth_increment regular _) (by simp)
              · -- the count stands in front of all blocks
                have hdata := Layout.Regular.data_le_of_mem ha
                have hcounter := Elsewhere.counter_end regular
                have hbitmap := regular.bitmap_lt_data
                obtain ⟨hle, hlt⟩ := hx
                rw [Content.put_outside _ (by rw [Bytes.size_ofNumber]; omega),
                  Content.put_inside _ hle (by rw [Bytes.size_zeros]; exact hlt), Bytes.get_zeros]
            · cases hr
      · cases hr

/-! ## Returning a block -/

/-- Returning a block that was marked unmarks it and lowers the counter; returning another covered
block changes no bit. No other byte changes than those of the bitmap and the counter. -/
theorem release_ends (regular : layout.Arranged IsSize) (hsize : layout.endAddress ≤ size) {a : Nat}
    (ha : a ∈ layout.covered) :
    (release layout a : Edit σ Unit).Ends size m fun r m' =>
      r = .ok () ∧ marked layout m' = (marked layout m).erase a ∧
        counter layout m'
          = (if a ∈ marked layout m then decrement (counter layout m) else counter layout m) ∧
        (∀ x, Elsewhere layout [] x → m' x = m x) ∨
      ∃ e, r = .error e ∧ Fault σ e := by
  have hcounter := Elsewhere.counter_end regular
  have hmarked : marked layout (assigned layout m a false) = (marked layout m).erase a := by
    rw [marked_assigned regular ha, if_neg Bool.false_ne_true]
  have hcount : counter layout (assigned layout m a false) = counter layout m :=
    Content.number_congr fun i hi => assigned_outside regular ha false (by omega)
  refine .bind (assign_ends regular hsize ha false) ?_ ?_
  · rintro e m' (⟨hr, -⟩ | ⟨e', hr, he, -⟩)
    · cases hr
    · cases hr
      exact .inr ⟨e, rfl, he⟩
  · rintro was m' (⟨hr, rfl⟩ | ⟨e', hr, -⟩)
    · obtain rfl := Except.ok.inj hr
      -- only a block that was in use is counted down
      by_cases hmem : a ∈ marked layout m
      · simp only [hmem, decide_true, countReleased, if_true]
        refine (recount_ends regular hsize decrement).mono ?_
        rintro r m' (⟨rfl, rfl⟩ | ⟨e, rfl, he, -⟩)
        · have hle : decrement (counter layout (assigned layout m a false)) ≤ counterLimit :=
            Nat.le_trans (Nat.sub_le ..) (counter_le ..)
          refine .inl ⟨rfl, by rw [marked_put_counter regular, hmarked],
            by rw [counter_put _ _ hle, hcount], fun x hx => ?_⟩
          rw [Content.put_outside _ (by rw [Bytes.size_ofNumber]; exact hx.counter),
            assigned_outside regular ha false hx.bitmap]
        · exact .inr ⟨e, rfl, he⟩
      · simp only [hmem, decide_false, countReleased, Bool.false_eq_true, if_false]
        exact .pure (.inl ⟨rfl, hmarked, hcount,
          fun x hx => assigned_outside regular ha false hx.bitmap⟩)
    · cases hr

omit [Layout.Roomy IsSize] in
/-- An address without a bit is not returned, and nothing changes. -/
theorem release_ends_of_not_mem (regular : layout.Arranged IsSize) {a : Nat}
    (ha : a ∉ layout.covered) :
    (release layout a : Edit σ Unit).Ends size m fun r m' =>
      r = .error (.invalidAddress a) ∧ m' = m := by
  refine .bind (assign_ends_of_not_mem regular ha false) ?_ ?_
  · rintro e m' ⟨hr, rfl⟩
    cases hr
    exact ⟨rfl, rfl⟩
  · rintro was m' ⟨hr, -⟩
    cases hr

end ChainFs.Block
