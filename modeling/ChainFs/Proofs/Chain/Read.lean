import ChainFs.Proofs.Chain.Payload

/-!
# Reading chains

The loop of a read carries a position, a block and what it has gathered. What ties them together is
the index of the block in the chain: the position is where that block's payload starts, and what is
gathered is everything in front of it that was asked for. Each turn adds the piece in one block, so
the induction is on the blocks that are still to come.

* `Chain.gather_eq` — the loop: from block `k` on, what is read is the payload from there on;
* `Chain.readRange_eq` — reading an intact chain brings the asked stretch of its payload, as far as
  the recorded size and the chain reach.
-/

namespace ChainFs.Chain

open Store

variable {σ : Type} [Store σ] [Faithful σ]
variable {layout : Layout} {IsSize : Nat → Prop} [Layout.Roomy IsSize] {chain : List Nat}

/-- The piece of a stretch that lies in block `k`. -/
theorem piece_eq (regular : layout.Arranged IsSize) {store : σ}
    (hsize : layout.endAddress ≤ Store.size store)
    (intact : Intact layout (content store) chain) {k a : Nat} (ha : chain[k]? = some a)
    (offset stop : Nat) :
    piece layout store offset stop a (k * layout.payloadSize) =
      .ok ((payload layout (content store) chain).window (max offset (k * layout.payloadSize))
        (min stop ((k + 1) * layout.payloadSize) - max offset (k * layout.payloadSize))) := by
  have hsum := payloadSize_add regular
  have hmul : (k + 1) * layout.payloadSize = k * layout.payloadSize + layout.payloadSize :=
    Nat.succ_mul ..
  have hend := regular.end_of_mem (intact.covered (List.mem_of_getElem? ha))
  unfold piece
  split
  · rename_i hlt
    dsimp only
    rw [read_eq (by omega), ← hmul]
    congr 1
    refine Content.window_congr fun i hi => ?_
    have hplace : max offset (k * layout.payloadSize) + i = k * layout.payloadSize
        + (max offset (k * layout.payloadSize) - k * layout.payloadSize + i) := by omega
    rw [hplace, payload_eq ha (by omega)]
    congr 1
    omega
  · have hnone :
        min stop ((k + 1) * layout.payloadSize) - max offset (k * layout.payloadSize) = 0 :=
      by omega
    rw [hnone, Content.window_zero]

/-- The stretches from `offset` on before and behind a place `middle` make up the whole one. -/
theorem window_stretch (p : Content) (offset : Nat) {low middle high : Nat} (h : low ≤ middle)
    (h' : middle ≤ high) :
    p.window (max offset low) (middle - max offset low)
        ++ p.window (max offset middle) (high - max offset middle)
      = p.window (max offset low) (high - max offset low) := by
  rcases Nat.lt_or_ge offset middle with hin | hout
  · have hfirst : max offset middle = max offset low + (middle - max offset low) := by omega
    rw [hfirst, Content.window_append]
    congr 1
    omega
  · have hnone : middle - max offset low = 0 := by omega
    have hsame : max offset middle = max offset low := by omega
    rw [hnone, hsame, Content.window_zero, ByteArray.empty_append]

/-- What is gathered from block `k` on is the stretch from there to its end or the chain's. -/
theorem gather_eq (regular : layout.Arranged IsSize) {store : σ}
    (hsize : layout.endAddress ≤ Store.size store)
    (intact : Intact layout (content store) chain) (offset stop blocks : Nat) {k a : Nat}
    (ha : chain[k]? = some a) (hk : k * layout.payloadSize < stop)
    (hblocks : stop ≤ (k + blocks) * layout.payloadSize) (out : ByteArray) :
    gather layout store offset stop blocks a (k * layout.payloadSize) out =
      .ok (out ++ (payload layout (content store) chain).window
        (max offset (k * layout.payloadSize))
        (min stop (capacity layout chain) - max offset (k * layout.payloadSize))) := by
  have hpos := payloadSize_pos regular
  induction blocks generalizing k a out with
  | zero =>
    rw [Nat.add_zero] at hblocks
    omega
  | succ blocks ih =>
    have hmul : (k + 1) * layout.payloadSize = k * layout.payloadSize + layout.payloadSize :=
      Nat.succ_mul ..
    have hmem := intact.covered (List.mem_of_getElem? ha)
    have hne : a ≠ 0 := Nat.ne_of_gt (regular.pos_of_mem hmem)
    have hlength : k < chain.length := (List.getElem?_eq_some_iff.mp ha).1
    have hreach : (k + 1) * layout.payloadSize ≤ capacity layout chain :=
      Nat.mul_le_mul_right _ hlength
    rw [gather, if_neg hne, piece_eq regular hsize intact ha]
    simp only [bind, Except.bind]
    by_cases hlast : k * layout.payloadSize + layout.payloadSize < stop
    · rw [if_pos hlast, intact.next_eq regular hsize ha]
      simp only [← hmul]
      rcases hnext : chain[k + 1]? with _ | b
      · -- the chain ends with this block
        have hend : chain.length = k + 1 := by
          have := List.getElem?_eq_none_iff.mp hnext
          omega
        have hcapacity : capacity layout chain = (k + 1) * layout.payloadSize := by
          rw [capacity, hend]
        have hstop : ∀ blocks out, gather layout store offset stop blocks 0
            ((k + 1) * layout.payloadSize) out = .ok out := by
          intro blocks out
          cases blocks <;> rfl
        rw [Option.getD_none, hstop, hcapacity]
      · have hrest : stop ≤ (k + 1 + blocks) * layout.payloadSize := by
          rw [Nat.add_assoc, Nat.add_comm 1]
          exact hblocks
        have hmiddle : min stop ((k + 1) * layout.payloadSize) = (k + 1) * layout.payloadSize := by
          omega
        rw [Option.getD_some, ih hnext (by omega) hrest, ByteArray.append_assoc, hmiddle,
          window_stretch _ offset (by omega) (by omega)]
    · rw [if_neg hlast]
      simp only [pure, Except.pure]
      have hstop : min stop ((k + 1) * layout.payloadSize) = min stop (capacity layout chain) := by
        omega
      rw [hstop]

/-- Reading an intact chain brings the bytes of its payload from `offset` on, up to the end of what
was asked for, of the recorded size or of the chain. -/
theorem readRange_eq (regular : layout.Arranged IsSize) {store : σ}
    (hsize : layout.endAddress ≤ Store.size store)
    (intact : Intact layout (content store) chain) {start : Nat} (hstart : chain[0]? = some start)
    (total offset length : Nat) :
    readRange layout store start total offset length =
      .ok ((payload layout (content store) chain).window offset
        (min (min (offset + length) total) (capacity layout chain) - offset)) := by
  have hpos := payloadSize_pos regular
  unfold readRange
  split
  · have hnone : min (min (offset + length) total) (capacity layout chain) - offset = 0 := by omega
    rw [hnone, Content.window_zero]
  · have hvisits : visitsFor layout (min (offset + length) total)
        = blocksFor layout (min (offset + length) total) := by
      rw [visitsFor, if_neg (by omega)]
    have hblocks := le_blocksFor_mul regular (min (offset + length) total)
    have hgather := gather_eq regular hsize intact offset (min (offset + length) total)
      (blocksFor layout (min (offset + length) total)) (k := 0) hstart (by omega)
      (by rw [Nat.zero_add]; exact hblocks) ByteArray.empty
    rw [Nat.zero_mul, Nat.max_eq_left (Nat.zero_le _), ByteArray.empty_append] at hgather
    dsimp only
    rw [hvisits]
    exact hgather

end ChainFs.Chain
