import ChainFs.Chain
import ChainFs.Proofs.Block

/-!
# Chains and their payload

On a store there are only links. Here a chain is a list of blocks about which the links are a
statement, and so all that is to be said of chains can be said by induction on lists. A payload has
no end: it is a content like that of a store, zero behind the last block. So a chain that goes on
with zero blocks keeps its payload, and neither reading nor writing needs a case for the end.

* `Chain.Linked` — a list of blocks each of which leads to the next one, the last to none;
* `Chain.Intact` — such a list of different blocks that are in use;
* `Chain.payload` — the content the blocks of a list hold together, with zeros behind it;
* `Chain.readRange_eq` — reading brings a stretch of that content, as far as the chain reaches.
-/

namespace ChainFs.Chain

open Store Bitmap

variable {layout : Layout} {IsSize : Nat → Prop} [Layout.Roomy IsSize]
variable {m m' : Content} {chain added : List Nat}

/-! ## Links -/

/-- The address a block leads to. -/
def target (layout : Layout) (m : Content) (a : Nat) : Nat :=
  layout.blockAddress (m.number a 4)

/-- Each block of the list leads to the next one, and the last one to none. -/
def Linked (layout : Layout) (m : Content) (chain : List Nat) : Prop :=
  ∀ k a, chain[k]? = some a → target layout m a = (chain[k + 1]?).getD 0

/-- A chain of different blocks that are all in use. -/
structure Intact (layout : Layout) (m : Content) (chain : List Nat) : Prop where
  ne_nil : chain ≠ []
  linked : Linked layout m chain
  nodup : chain.Nodup
  marked : ∀ a ∈ chain, a ∈ marked layout m

theorem target_congr {a : Nat} (h : ∀ i < 4, m' (a + i) = m (a + i)) :
    target layout m' a = target layout m a := by
  rw [target, target, Content.number_congr h]

theorem target_zero {a : Nat} (h : ∀ i < 4, m (a + i) = 0) : target layout m a = 0 := by
  rw [target, Content.number_zero h, Layout.blockAddress, Nat.zero_mul]

omit [Layout.Roomy IsSize] in
/-- The link that a number makes. -/
theorem target_put (regular : layout.Arranged IsSize) (m : Content) (a : Nat) {b : Nat}
    (hb : b ∈ layout.covered) :
    target layout (m.put a (Bytes.ofNumber 4 (b / layout.blockSize))) a = b := by
  have hlt := regular.div_lt_of_mem hb
  rw [target, Content.number_put m a (by omega), Layout.blockAddress, regular.div_mul_of_mem hb]

theorem Linked.congr (h : Linked layout m chain)
    (htarget : ∀ a ∈ chain, target layout m' a = target layout m a) :
    Linked layout m' chain := by
  intro k a ha
  rw [htarget a (List.mem_of_getElem? ha)]
  exact h k a ha

/-- What follows the first block is linked as well. -/
theorem Linked.tail {a : Nat} (h : Linked layout m (a :: chain)) : Linked layout m chain :=
  fun k b hb => h (k + 1) b hb

/-- The last block leads to none. -/
theorem Linked.target_last (h : Linked layout m chain) {a : Nat} (hlast : chain.getLast? = some a) :
    target layout m a = 0 := by
  obtain ⟨front, rfl⟩ := List.getLast?_eq_some_iff.mp hlast
  rw [h front.length a (by simp), List.getElem?_eq_none (by simp), Option.getD_none]

/-- A new block behind the last one makes a longer chain. -/
theorem Linked.concat {a b : Nat} (h : Linked layout m chain) (hlast : chain.getLast? = some a)
    (hnodup : chain.Nodup) (hchain : ∀ c ∈ chain, c ≠ a → target layout m' c = target layout m c)
    (ha : target layout m' a = b) (hb : target layout m' b = 0) :
    Linked layout m' (chain ++ [b]) := by
  obtain ⟨front, rfl⟩ := List.getLast?_eq_some_iff.mp hlast
  have hfront : a ∉ front := by
    intro hmem
    exact (List.nodup_append.mp hnodup).2.2 a hmem a (by simp) rfl
  intro k c hc
  rcases Nat.lt_trichotomy k front.length with hlt | rfl | hgt
  · -- a block in front of the last one leads where it led before
    rw [List.append_assoc, List.getElem?_append_left hlt] at hc
    have hmem : c ∈ front := List.mem_of_getElem? hc
    have hold := h k c (by rw [List.getElem?_append_left hlt]; exact hc)
    have hnext : (front ++ [a] ++ [b])[k + 1]? = (front ++ [a])[k + 1]? :=
      List.getElem?_append_left (by simp; omega)
    rw [hchain c (by simp [hmem]) (by rintro rfl; exact hfront hmem), hold, hnext]
  · have hca : c = a := by simpa using hc.symm
    rw [hca, ha]
    simp
  · have hk : k = front.length + 1 := by
      have := (List.getElem?_eq_some_iff.mp hc).1
      simp only [List.length_append, List.length_singleton] at this
      omega
    subst hk
    have hcb : c = b := by simpa using hc.symm
    rw [hcb, hb, List.getElem?_eq_none (by simp)]
    rfl

namespace Intact

theorem covered (intact : Intact layout m chain) {a : Nat} (ha : a ∈ chain) :
    a ∈ layout.covered :=
  marked_subset_covered (intact.marked a ha)

theorem exists_last (intact : Intact layout m chain) : ∃ a, chain.getLast? = some a :=
  ⟨_, List.getLast?_eq_some_getLast intact.ne_nil⟩

omit [Layout.Roomy IsSize] in
/-- A chain has no more blocks than the bitmap has bits. -/
theorem length_le (intact : Intact layout m chain) (regular : layout.Arranged IsSize) :
    chain.length ≤ layout.bitmapBits := by
  rw [← List.toFinset_card_of_nodup intact.nodup, ← regular.card_covered]
  exact Finset.card_le_card fun a ha => intact.covered (List.mem_toFinset.mp ha)

omit [Layout.Roomy IsSize] in
/-- Chains that begin with the same block are the same. -/
theorem eq_of_first {chain' : List Nat} (intact : Intact layout m chain)
    (intact' : Intact layout m chain') (regular : layout.Arranged IsSize)
    (h : chain[0]? = chain'[0]?) : chain = chain' := by
  refine List.ext_getElem? fun k => ?_
  induction k with
  | zero => exact h
  | succ k ih =>
    rcases ha : chain[k]? with _ | a
    · have hlength := List.getElem?_eq_none_iff.mp ha
      have hlength' := List.getElem?_eq_none_iff.mp (ih ▸ ha)
      rw [List.getElem?_eq_none (by omega), List.getElem?_eq_none (by omega)]
    · have hnext := intact.linked k a ha
      rw [intact'.linked k a (ih ▸ ha)] at hnext
      -- the end of a chain is told by a link that no block has
      have hpos : ∀ {chain : List Nat} {b : Nat}, Intact layout m chain → chain[k + 1]? = some b →
          0 < b := fun hintact hb => regular.pos_of_mem (hintact.covered (List.mem_of_getElem? hb))
      rcases hb : chain[k + 1]? with _ | b <;> rcases hb' : chain'[k + 1]? with _ | b'
      · rfl
      · have hpos' := hpos intact' hb'
        simp only [hb, hb', Option.getD_none, Option.getD_some] at hnext
        omega
      · have hpos' := hpos intact hb
        simp only [hb, hb', Option.getD_none, Option.getD_some] at hnext
        omega
      · simp only [hb, hb', Option.getD_some] at hnext
        rw [hnext]

/-- Chains stay intact where the links of their blocks stay and the blocks stay marked. -/
theorem congr (intact : Intact layout m chain)
    (htarget : ∀ a ∈ chain, target layout m' a = target layout m a)
    (hmarked : ∀ a ∈ chain, a ∈ Bitmap.marked layout m') : Intact layout m' chain :=
  ⟨intact.ne_nil, intact.linked.congr htarget, intact.nodup, hmarked⟩

/-- A chain keeps out of the way of growth that touches none of its blocks. -/
theorem of_growth (intact : Intact layout m chain) (regular : layout.Arranged IsSize)
    {touched taken : List Nat} {counted : Nat}
    (growth : Growth layout m touched taken counted m') (hapart : ∀ a ∈ chain, a ∉ touched) :
    Intact layout m' chain := by
  refine intact.congr (fun a ha => target_congr fun i hi => ?_) fun a ha =>
    growth.marked_mono (intact.marked a ha)
  have hge := regular.nine_le
  exact growth.same_of_marked regular (intact.marked a ha) (hapart a ha)
    ⟨by omega, by omega⟩

end Intact

section Next

variable {σ : Type} [Store σ] [Faithful σ]

/-- The next block, where the link leads to a block of the data region or nowhere. -/
theorem next_eq (regular : layout.Arranged IsSize) {store : σ} {a : Nat}
    (hsize : layout.endAddress ≤ Store.size store) (ha : a ∈ layout.covered)
    (htarget : target layout (content store) a = 0 ∨
      layout.InData (target layout (content store) a)) :
    next layout store a = .ok (target layout (content store) a) := by
  have hend := regular.end_of_mem ha
  have hge := regular.nine_le
  have hread : Store.readNumber 4 store a = .ok ((content store).number a 4) :=
    readNumber_eq (by omega)
  rw [target] at htarget
  rw [next, hread]
  simp only [bind, Except.bind]
  rw [if_neg (by tauto)]
  rfl

/-- On a chain the next block is the next one of the list, and there is none behind the last. -/
theorem Intact.next_eq {store : σ} (intact : Intact layout (content store) chain)
    (regular : layout.Arranged IsSize) (hsize : layout.endAddress ≤ Store.size store) {k a : Nat}
    (ha : chain[k]? = some a) : next layout store a = .ok ((chain[k + 1]?).getD 0) := by
  have htarget := intact.linked k a ha
  rw [← htarget]
  refine Chain.next_eq regular hsize (intact.covered (List.mem_of_getElem? ha)) ?_
  rw [htarget]
  rcases hb : chain[k + 1]? with _ | b
  · exact .inl rfl
  · exact .inr (regular.inData_of_mem (intact.covered (List.mem_of_getElem? hb)))

end Next

/-! ## Payload -/

/-- The content that the blocks of a list hold together, with zeros behind it. -/
def payload (layout : Layout) (m : Content) (chain : List Nat) : Content := fun i =>
  match chain[i / layout.payloadSize]? with
  | some a => m (a + Layout.linkSize + i % layout.payloadSize)
  | none => 0

/-- How many bytes of payload the blocks of a list have room for. -/
def capacity (layout : Layout) (chain : List Nat) : Nat :=
  chain.length * layout.payloadSize

theorem payloadSize_add (regular : layout.Arranged IsSize) :
    Layout.linkSize + layout.payloadSize = layout.blockSize := by
  have := regular.nine_le
  rw [Layout.payloadSize, Layout.linkSize]
  omega

theorem payloadSize_pos (regular : layout.Arranged IsSize) : 0 < layout.payloadSize := by
  have := regular.nine_le
  rw [Layout.payloadSize, Layout.linkSize]
  omega

/-- The blocks for a payload have room for it, and one block less has not. -/
theorem blocksFor_bounds (hpos : 0 < layout.payloadSize) (size : Nat) :
    size ≤ blocksFor layout size * layout.payloadSize ∧
      blocksFor layout size * layout.payloadSize < size + layout.payloadSize := by
  have hdiv := Nat.div_add_mod' (size + layout.payloadSize - 1) layout.payloadSize
  have hmod := Nat.mod_lt (size + layout.payloadSize - 1) hpos
  rw [blocksFor]
  omega

theorem le_blocksFor_mul (regular : layout.Arranged IsSize) (size : Nat) :
    size ≤ blocksFor layout size * layout.payloadSize :=
  (blocksFor_bounds (payloadSize_pos regular) size).1

theorem blocksFor_le (regular : layout.Arranged IsSize) {n k : Nat}
    (h : n ≤ k * layout.payloadSize) :
    blocksFor layout n ≤ k := by
  have hpos := payloadSize_pos regular
  rw [blocksFor, Nat.div_le_iff_le_mul hpos]
  omega

theorem lt_blocksFor (regular : layout.Arranged IsSize) {n k : Nat}
    (h : k * layout.payloadSize < n) :
    k < blocksFor layout n :=
  Nat.lt_of_mul_lt_mul_right (Nat.lt_of_lt_of_le h (le_blocksFor_mul regular n))

/-- A chain that goes on as little as it must holds so many blocks more. -/
theorem length_added (regular : layout.Arranged IsSize) {chain added : List Nat} {n : Nat}
    (hend : n ≤ capacity layout (chain ++ added))
    (hleast : added = [] ∨ capacity layout (chain ++ added) < n + layout.payloadSize) :
    added.length = blocksFor layout n - chain.length := by
  rw [capacity, List.length_append] at hend hleast
  have hle := blocksFor_le regular hend
  rcases hleast with rfl | hlt
  · rw [List.length_nil] at hle ⊢
    omega
  · have hpos := payloadSize_pos regular
    rcases added with _ | ⟨b, added⟩
    · rw [List.length_nil] at hle ⊢
      omega
    · have hge := lt_blocksFor regular (n := n) (k := chain.length + added.length) (by
        rw [List.length_cons, ← Nat.add_assoc, Nat.succ_mul] at hlt
        omega)
      rw [List.length_cons] at hle ⊢
      omega

/-- The byte at a place of block `k`. -/
theorem payload_eq {k a i : Nat} (ha : chain[k]? = some a) (hi : i < layout.payloadSize) :
    payload layout m chain (k * layout.payloadSize + i) = m (a + Layout.linkSize + i) := by
  have hpos : 0 < layout.payloadSize := by omega
  have hdiv : (k * layout.payloadSize + i) / layout.payloadSize = k := by
    rw [Nat.mul_comm, Nat.mul_add_div hpos, Nat.div_eq_of_lt hi, Nat.add_zero]
  have hmod : (k * layout.payloadSize + i) % layout.payloadSize = i := by
    rw [Nat.mul_comm, Nat.mul_add_mod, Nat.mod_eq_of_lt hi]
  rw [payload, hdiv, hmod, ha]

theorem payload_zero (regular : layout.Arranged IsSize) {i : Nat} (hi : capacity layout chain ≤ i) :
    payload layout m chain i = 0 := by
  have hpos := payloadSize_pos regular
  have hnone : chain[i / layout.payloadSize]? = none :=
    List.getElem?_eq_none ((Nat.le_div_iff_mul_le hpos).mpr hi)
  rw [payload, hnone]

/-- The payload depends on the bytes of the blocks behind their links. -/
theorem payload_congr (regular : layout.Arranged IsSize)
    (h : ∀ a ∈ chain, ∀ x, a + Layout.linkSize ≤ x → layout.InBlock a x → m' x = m x) :
    payload layout m' chain = payload layout m chain := by
  funext i
  have hsum := payloadSize_add regular
  have hlt := Nat.mod_lt i (payloadSize_pos regular)
  unfold payload
  rcases hget : chain[i / layout.payloadSize]? with _ | a
  · rfl
  · exact h a (List.mem_of_getElem? hget) _ (by omega) ⟨by omega, by omega⟩

/-- A byte behind the link of block `k` in the payload. -/
theorem payload_byte {k a x : Nat} (ha : chain[k]? = some a) (hle : a + Layout.linkSize ≤ x)
    (hx : layout.InBlock a x) :
    payload layout m chain (k * layout.payloadSize + (x - (a + Layout.linkSize))) = m x := by
  obtain ⟨-, hlt⟩ := hx
  have hinside : x - (a + Layout.linkSize) < layout.payloadSize := by
    rw [Layout.payloadSize]
    omega
  rw [payload_eq ha hinside]
  congr 1
  omega

/-- Equal payloads come from equal bytes behind the links. -/
theorem same_of_payload (h : payload layout m' (chain ++ added) = payload layout m chain) :
    ∀ a ∈ chain, ∀ x, a + Layout.linkSize ≤ x → layout.InBlock a x → m' x = m x := by
  intro a ha x hle hx
  obtain ⟨k, hk⟩ := List.mem_iff_getElem?.mp ha
  have hplace : (chain ++ added)[k]? = some a := by
    rw [List.getElem?_append_left (List.getElem?_eq_some_iff.mp hk).1]
    exact hk
  calc m' x
      = payload layout m' (chain ++ added) _ := (payload_byte hplace hle hx).symm
    _ = payload layout m chain _ := congrFun h _
    _ = m x := payload_byte hk hle hx

/-- Blocks behind a chain that leave its payload as it is are zero behind their links. -/
theorem zero_of_payload (regular : layout.Arranged IsSize)
    (h : payload layout m' (chain ++ added) = payload layout m chain) :
    ∀ a ∈ added, ∀ x, a + Layout.linkSize ≤ x → layout.InBlock a x → m' x = 0 := by
  intro a ha x hle hx
  obtain ⟨k, hk⟩ := List.mem_iff_getElem?.mp ha
  have hplace : (chain ++ added)[chain.length + k]? = some a := by
    rw [List.getElem?_append_right (Nat.le_add_right ..), Nat.add_sub_cancel_left]
    exact hk
  have hbehind : capacity layout chain
      ≤ (chain.length + k) * layout.payloadSize + (x - (a + Layout.linkSize)) := by
    rw [capacity, Nat.add_mul]
    omega
  calc m' x
      = payload layout m' (chain ++ added) _ := (payload_byte hplace hle hx).symm
    _ = payload layout m chain _ := congrFun h _
    _ = 0 := payload_zero regular hbehind

/-- A zero block behind a chain does not change its payload. -/
theorem payload_concat {b : Nat} (regular : layout.Arranged IsSize)
    (hb : ∀ x, layout.InBlock b x → m x = 0) :
    payload layout m (chain ++ [b]) = payload layout m chain := by
  funext i
  have hsum := payloadSize_add regular
  have hlt := Nat.mod_lt i (payloadSize_pos regular)
  unfold payload
  rcases Nat.lt_trichotomy (i / layout.payloadSize) chain.length with h | h | h
  · rw [List.getElem?_append_left h]
  · rw [h, List.getElem?_concat_length, List.getElem?_eq_none (Nat.le_refl _)]
    exact hb _ ⟨by omega, by omega⟩
  · rw [List.getElem?_eq_none (by simp; omega), List.getElem?_eq_none (by omega)]

/-- Writing behind the link of block `k` is writing into the payload. -/
theorem payload_put (regular : layout.Arranged IsSize) (intact : Intact layout m chain)
    {k a inBlock : Nat} {bytes : ByteArray} (ha : chain[k]? = some a)
    (hend : inBlock + bytes.size ≤ layout.payloadSize) :
    payload layout (m.put (a + Layout.linkSize + inBlock) bytes) chain
      = (payload layout m chain).put (k * layout.payloadSize + inBlock) bytes := by
  funext i
  have hpos := payloadSize_pos regular
  have hsum := payloadSize_add regular
  have hlt := Nat.mod_lt i hpos
  have hi : i / layout.payloadSize * layout.payloadSize + i % layout.payloadSize = i :=
    Nat.div_add_mod' i layout.payloadSize
  by_cases hk : i / layout.payloadSize = k
  · rw [hk] at hi
    rw [← hi, payload_eq ha hlt]
    by_cases hinside : inBlock ≤ i % layout.payloadSize ∧
        i % layout.payloadSize < inBlock + bytes.size
    · rw [Content.put_inside _ (by omega) (by omega), Content.put_inside _ (by omega) (by omega)]
      congr 1
      omega
    · rw [Content.put_outside _ (by omega), Content.put_outside _ (by omega), payload_eq ha hlt]
  · -- another block does not overlap block `k`
    have houtside : i < k * layout.payloadSize + inBlock ∨
        k * layout.payloadSize + inBlock + bytes.size ≤ i := by
      rcases Nat.lt_or_gt_of_ne hk with h | h
      · have := Nat.mul_le_mul_right layout.payloadSize (Nat.succ_le_of_lt h)
        rw [Nat.succ_mul] at this
        omega
      · have := Nat.mul_le_mul_right layout.payloadSize (Nat.succ_le_of_lt h)
        rw [Nat.succ_mul] at this
        omega
    rw [Content.put_outside _ houtside]
    unfold payload
    rcases hget : chain[i / layout.payloadSize]? with _ | b
    · rfl
    · have hne : b ≠ a := by
        rintro rfl
        have hb := List.getElem?_eq_some_iff.mp hget
        have ha := List.getElem?_eq_some_iff.mp ha
        exact hk (intact.nodup.getElem_inj_iff.mp (hb.2.trans ha.2.symm))
      have hapart := regular.apart_of_mem (intact.covered (List.mem_of_getElem? hget))
        (intact.covered (List.mem_of_getElem? ha)) hne
      exact Content.put_outside _ (by omega)

end ChainFs.Chain
