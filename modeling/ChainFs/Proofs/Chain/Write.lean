import ChainFs.Proofs.Chain.Payload

/-!
# Writing chains

`Chain.Written` says what a write to a chain has done at any point: the chain goes on with the
blocks `added`, its payload is as given, and nothing outside of it changed. A block may have been
taken and not yet been linked when the write was cut off; such blocks are `spare`.

* `Chain.nextOrExtend_ends` — one step along a chain, with a new block at its end;
* `Chain.advance_ends` — any number of steps;
* `Chain.Overlaid` — the ways in which a write of data ends;
* `Chain.writePieces_ends` — data written block by block;
* `Chain.writeRange_ends` — a write is an overlay of the payload, up to the point where space runs
  out.

The loop of a write lays a piece into the block it has come to and takes a step. In between, the
chain may have become longer than the data needs so far, and it holds a part of the data; both are
written down as a `Chain.Written` whose payload is the old one with the pieces so far laid over it.
-/

namespace ChainFs.Chain

open Store Bitmap Block

variable {layout : Layout} {IsSize : Nat → Prop} [Layout.Roomy IsSize]
variable {m m' m'' : Content} {chain : List Nat}

/-- A chain after a write: it goes on with `added`, its payload is `p`, and `spare` blocks were
taken that are not linked. -/
structure Written (layout : Layout) (m : Content) (chain added spare : List Nat) (counted : Nat)
    (p m' : Content) : Prop where
  growth : Growth layout m chain (added ++ spare) counted m'
  intact : Intact layout m' (chain ++ added)
  payload_eq : payload layout m' (chain ++ added) = p

namespace Written

variable {added added' spare : List Nat} {counted : Nat} {p p' : Content}

theorem refl (intact : Intact layout m chain) :
    Written layout m chain [] [] 0 (payload layout m chain) m where
  growth := (Growth.refl layout m).mono (fun _ ha => intact.covered ha) (by simp)
  intact := by rwa [List.append_nil]
  payload_eq := by rw [List.append_nil]

/-- Taking blocks leaves a chain as it is. -/
theorem of_growth (regular : layout.Arranged IsSize) (intact : Intact layout m chain)
    (growth : Growth layout m [] spare counted m') :
    Written layout m chain [] spare counted (payload layout m chain) m' where
  growth := growth.mono (fun _ hc => intact.covered hc) (by simp)
  intact := by
    rw [List.append_nil]
    exact intact.of_growth regular growth (by simp)
  payload_eq := by
    rw [List.append_nil]
    refine payload_congr regular fun c hc x _ hx => ?_
    exact growth.same_of_marked regular (intact.marked c hc) (by simp) hx

/-- A write after a write that left no spare block. -/
theorem trans (h : Written layout m chain added [] added.length p m')
    (h' : Written layout m' (chain ++ added) added' spare counted p' m'') :
    Written layout m chain (added ++ added') spare (added.length + counted) p' m'' where
  growth := by
    have hgrowth := h.growth
    rw [List.append_nil] at hgrowth
    rw [List.append_assoc]
    exact hgrowth.trans h'.growth fun a ha => ha
  intact := by
    rw [← List.append_assoc]
    exact h'.intact
  payload_eq := by
    rw [← List.append_assoc]
    exact h'.payload_eq

/-- Data written behind the link of a block. -/
theorem of_put (regular : layout.Arranged IsSize) (intact : Intact layout m chain) (inBlock : Nat)
    (bytes : ByteArray) {k a : Nat} (ha : chain[k]? = some a)
    (hend : inBlock + bytes.size ≤ layout.payloadSize) :
    Written layout m chain [] [] 0
      ((payload layout m chain).put (k * layout.payloadSize + inBlock) bytes)
      (m.put (a + Layout.linkSize + inBlock) bytes) := by
  have hsum := payloadSize_add regular
  have hmem := List.mem_of_getElem? ha
  have hput := Growth.of_put regular m (a + Layout.linkSize + inBlock) bytes
    (intact.covered hmem) (by omega) (by omega)
  have htarget : ∀ b ∈ chain,
      target layout (m.put (a + Layout.linkSize + inBlock) bytes) b = target layout m b := by
    intro b hb
    refine target_congr fun i hi => Content.put_outside m ?_
    by_cases hba : b = a
    · rw [hba, Layout.linkSize]
      omega
    · have := regular.apart_of_mem (intact.covered hb) (intact.covered hmem) hba
      have := regular.nine_le
      omega
  refine ⟨hput.mono (fun _ hb => intact.covered hb) (by simpa using hmem), ?_, ?_⟩
  · rw [List.append_nil]
    exact intact.congr htarget fun b hb => hput.marked_mono (intact.marked b hb)
  · rw [List.append_nil]
    exact payload_put regular intact ha hend

end Written

/-- A taken block linked behind the last one of a chain. -/
theorem written_link (regular : layout.Arranged IsSize) (intact : Intact layout m chain) {a b : Nat}
    (hlast : chain.getLast? = some a) (growth : Growth layout m [] [b] 1 m')
    (hzero : ∀ x, layout.InBlock b x → m' x = 0) :
    Written layout m chain [b] [] 1 (payload layout m chain)
      (m'.put a (Bytes.ofNumber 4 (b / layout.blockSize))) := by
  have hge := regular.nine_le
  have hmem : a ∈ chain := List.mem_of_getLast? hlast
  have hacovered := intact.covered hmem
  have hbcovered := growth.taken_covered b (by simp)
  have hfresh : b ∉ chain := fun hb => growth.fresh b (by simp) (intact.marked b hb)
  have intact' := intact.of_growth regular growth fun c hc => by simp
  have hlink := Growth.of_put regular m' a (Bytes.ofNumber 4 (b / layout.blockSize)) hacovered
    (Nat.le_refl a) (by rw [Bytes.size_ofNumber]; omega)
  -- once the block is taken, only the link of `a` changes
  have hother : ∀ c x, c ∈ layout.covered → c ≠ a → layout.InBlock c x →
      m'.put a (Bytes.ofNumber 4 (b / layout.blockSize)) x = m' x := by
    intro c x hc hne hx
    have := regular.apart_of_mem hc hacovered hne
    obtain ⟨hle, hlt⟩ := hx
    exact Content.put_outside m' (by rw [Bytes.size_ofNumber]; omega)
  have hba : b ≠ a := by
    rintro rfl
    exact hfresh hmem
  have hpayload : payload layout (m'.put a (Bytes.ofNumber 4 (b / layout.blockSize))) chain
      = payload layout m chain := by
    refine payload_congr regular fun c hc x hle hx => ?_
    have hgrown := growth.same_of_marked regular (intact.marked c hc) (by simp) hx
    by_cases hca : c = a
    · rw [Layout.linkSize, hca] at hle
      rw [← hgrown]
      exact Content.put_outside m' (by rw [Bytes.size_ofNumber]; omega)
    · rw [hother c x (intact.covered hc) hca hx, hgrown]
  refine ⟨?_, ⟨by simp, ?_, ?_, ?_⟩, ?_⟩
  · have hgrowth : Growth layout m chain [b] 1 m' :=
      growth.mono (fun _ hc => intact.covered hc) (by simp)
    simpa using hgrowth.trans hlink (by simp [hmem])
  · refine intact'.linked.concat hlast intact.nodup (fun c hc hne => ?_)
      (target_put regular m' a hbcovered) (target_zero fun i hi => ?_)
    · exact target_congr fun i hi =>
        hother c _ (intact.covered hc) hne ⟨by omega, by omega⟩
    · rw [hother b _ hbcovered hba ⟨by omega, by omega⟩]
      exact hzero _ ⟨by omega, by omega⟩
  · exact List.nodup_append.mpr ⟨intact.nodup, by simp, by
      rintro c hc d hd rfl
      exact hfresh (by simpa using (List.mem_singleton.mp hd) ▸ hc)⟩
  · intro c hc
    apply hlink.marked_mono
    rcases List.mem_append.mp hc with hc | hc
    · exact growth.marked_mono (intact.marked c hc)
    · exact growth.taken_marked hc
  · rw [payload_concat regular fun x hx => ?_, hpayload]
    rw [hother b x hbcovered hba hx]
    exact hzero x hx

section Walk

variable {σ : Type} [Store σ] [Faithful σ] {size : Nat}

/-- Linking a block writes its number. -/
theorem link_ends (regular : layout.Arranged IsSize) (hsize : layout.endAddress ≤ size) {a b : Nat}
    (ha : a ∈ layout.covered) (hb : b ∈ layout.covered) :
    (link layout a b : Edit σ Unit).Ends size m fun r m' =>
      r = .ok () ∧ m' = m.put a (Bytes.ofNumber 4 (b / layout.blockSize)) ∨
      ∃ e, r = .error e ∧ Fault σ e ∧ m' = m := by
  have hend := regular.end_of_mem ha
  have hge := regular.nine_le
  refine .ofExcept_bind (regular.blockNumber_of_mem hb) (.write ?_ (.inl ⟨rfl, rfl⟩) ?_)
  · rw [Bytes.size_ofNumber]
    omega
  · exact fun e he => .inr ⟨e, rfl, he, rfl⟩

/-- A write that was cut off: besides the blocks the chain goes on with, one block may have been
taken, and one of those taken may not be counted yet. -/
def Torn (layout : Layout) (m : Content) (chain : List Nat) (p m' : Content) : Prop :=
  ∃ added spare counted, Written layout m chain added spare counted p m' ∧ spare.length ≤ 1 ∧
    counted ≤ added.length + spare.length ∧ added.length + spare.length ≤ counted + 1

theorem Torn.refl (intact : Intact layout m chain) :
    Torn layout m chain (payload layout m chain) m :=
  ⟨[], [], 0, .refl intact, by simp, by simp, by simp⟩

/-- Taking a block, at any point, leaves a chain as it is. -/
theorem Torn.of_growth (regular : layout.Arranged IsSize) (intact : Intact layout m chain)
    {spare : List Nat} {counted : Nat} (growth : Growth layout m [] spare counted m')
    (hspare : spare.length ≤ 1) (hle : counted ≤ spare.length)
    (hge : spare.length ≤ counted + 1) : Torn layout m chain (payload layout m chain) m' :=
  ⟨[], spare, counted, .of_growth regular intact growth, hspare, by simpa, by simpa⟩

/-- A write that was cut off after one that was not. -/
theorem Written.torn {added : List Nat} {p p' : Content}
    (h : Written layout m chain added [] added.length p m')
    (h' : Torn layout m' (chain ++ added) p' m'') : Torn layout m chain p' m'' := by
  obtain ⟨added', spare, counted, hwritten, hspare, hle, hge⟩ := h'
  refine ⟨added ++ added', spare, added.length + counted, h.trans hwritten, hspare, ?_, ?_⟩
  · rw [List.length_append]
    omega
  · rw [List.length_append]
    omega

/-- Taking a block and linking it behind the last one of a chain. It ends early if there is no free
block, or at a failing write. -/
theorem extend_ends (regular : layout.Arranged IsSize) (hsize : layout.endAddress ≤ size)
    (intact : Intact layout m chain) {a : Nat} (hlast : chain.getLast? = some a)
    (place : Nat → Nat) :
    (do
      let added ← Block.acquire layout
      link layout a added
      return place added : Edit σ Nat).Ends size m fun r m' =>
      (∃ b, r = .ok (place b) ∧ Written layout m chain [b] [] 1 (payload layout m chain) m') ∨
      (r = .error .outOfSpace ∧ marked layout m = layout.covered ∧ m' = m) ∨
      ∃ e spare counted, r = .error e ∧ Fault σ e ∧ Growth layout m [] spare counted m' ∧
        spare.length ≤ 1 ∧ counted ≤ spare.length ∧ spare.length ≤ counted + 1 := by
  refine .bind (Block.acquire_ends regular hsize) ?_ ?_
  · rintro e m' (⟨b, hr, -⟩ | ⟨hr, hfull, rfl⟩ | ⟨e', spare, hr, he, growth, hspare⟩)
    · cases hr
    · cases hr
      exact .inr (.inl ⟨rfl, hfull, rfl⟩)
    · cases hr
      exact .inr (.inr ⟨e, spare, 0, rfl, he, growth, hspare, Nat.zero_le _, hspare⟩)
  · rintro b m' (⟨b', hr, growth, -, hzero⟩ | ⟨hr, -⟩ | ⟨e', spare, hr, -⟩)
    · cases hr
      have ha := intact.covered (List.mem_of_getLast? hlast)
      have hb := growth.taken_covered b (by simp)
      refine .bind (link_ends regular hsize ha hb) ?_ ?_
      · rintro e m'' (⟨hr, -⟩ | ⟨e', hr, he, rfl⟩)
        · cases hr
        · -- the block is taken and counted, but no chain leads to it
          cases hr
          exact .inr (.inr ⟨e, [b], 1, rfl, he, growth, by simp, by simp, by simp⟩)
      · rintro ⟨⟩ m'' (⟨-, rfl⟩ | ⟨e', hr, -⟩)
        · exact .pure (.inl ⟨b, rfl, written_link regular intact hlast growth hzero⟩)
        · cases hr
    · cases hr
    · cases hr

/-- A step along a chain from block `k` comes to the next block, which may be new. It ends early if
a new block is needed and there is none, or at a failing write. -/
theorem nextOrExtend_ends (regular : layout.Arranged IsSize) (hsize : layout.endAddress ≤ size)
    (intact : Intact layout m chain) {k a : Nat} (ha : chain[k]? = some a) :
    (nextOrExtend layout a : Edit σ Nat).Ends size m fun r m' =>
      (∃ added b, r = .ok b ∧ (chain ++ added)[k + 1]? = some b ∧
        Written layout m chain added [] added.length (payload layout m chain) m' ∧
        (added = [] ∨ (chain ++ added).length = k + 2)) ∨
      (r = .error .outOfSpace ∧ chain.length = k + 1 ∧ marked layout m = layout.covered ∧
        m' = m) ∨
      ∃ e, r = .error e ∧ Fault σ e ∧ Torn layout m chain (payload layout m chain) m' := by
  have hmem := List.mem_of_getElem? ha
  have hlength := (List.getElem?_eq_some_iff.mp ha).1
  refine .ask_bind (a := (chain[k + 1]?).getD 0) ?_ ?_
  · rintro store rfl rfl
    exact intact.next_eq regular hsize ha
  · rcases hnext : chain[k + 1]? with _ | b
    · -- the chain ends here, so a block is taken and linked
      have hend : chain.length = k + 1 := by
        have := List.getElem?_eq_none_iff.mp hnext
        omega
      have hlast : chain.getLast? = some a := by
        rw [List.getLast?_eq_getElem?, hend]
        exact ha
      rw [Option.getD_none, if_neg (by decide)]
      refine (extend_ends regular hsize intact hlast id).mono ?_
      rintro r m' (⟨b, rfl, written⟩ | ⟨rfl, hfull, rfl⟩ |
        ⟨e, spare, counted, rfl, he, growth, hspare, hle, hge⟩)
      · refine .inl ⟨[b], b, rfl, ?_, written, .inr (by simp [hend])⟩
        rw [← hend, List.getElem?_concat_length]
      · exact .inr (.inl ⟨rfl, hend, hfull, rfl⟩)
      · exact .inr (.inr ⟨e, rfl, he, .of_growth regular intact growth hspare hle hge⟩)
    · have hb := regular.pos_of_mem (intact.covered (List.mem_of_getElem? hnext))
      rw [Option.getD_some, if_pos (by omega)]
      refine .pure (.inl ⟨[], b, rfl, ?_, .refl intact, .inl rfl⟩)
      rw [List.append_nil]
      exact hnext

/-- From block `k` a number of steps comes to the block that many places on. -/
theorem advance_ends (regular : layout.Arranged IsSize) (hsize : layout.endAddress ≤ size)
    (intact : Intact layout m chain) {k a : Nat} (ha : chain[k]? = some a) (count : Nat) :
    (advance layout count a : Edit σ Nat).Ends size m fun r m' =>
      (∃ added b, r = .ok b ∧ (chain ++ added)[k + count]? = some b ∧
        Written layout m chain added [] added.length (payload layout m chain) m' ∧
        (added = [] ∨ (chain ++ added).length = k + count + 1)) ∨
      (∃ added, r = .error .outOfSpace ∧
        Written layout m chain added [] added.length (payload layout m chain) m' ∧
        marked layout m' = layout.covered ∧ (chain ++ added).length ≤ k + count) ∨
      ∃ e, r = .error e ∧ Fault σ e ∧ Torn layout m chain (payload layout m chain) m' := by
  induction count generalizing m chain k a with
  | zero =>
    refine .pure (.inl ⟨[], a, rfl, ?_, .refl intact, .inl rfl⟩)
    rw [List.append_nil]
    exact ha
  | succ count ih =>
    refine .bind (nextOrExtend_ends regular hsize intact ha) ?_ ?_
    · rintro e m' (⟨added, b, hr, -⟩ | ⟨hr, hend, hfull, rfl⟩ | ⟨e', hr, he, htorn⟩)
      · cases hr
      · cases hr
        refine .inr (.inl ⟨[], rfl, .refl intact, hfull, ?_⟩)
        rw [List.append_nil]
        omega
      · cases hr
        exact .inr (.inr ⟨e, rfl, he, htorn⟩)
    · rintro b m' (⟨added, b', hr, hb, hwritten, hlength⟩ | ⟨hr, -⟩ | ⟨e', hr, -⟩)
      · cases hr
        refine (ih hwritten.intact hb).mono ?_
        rw [hwritten.payload_eq, Nat.add_assoc, Nat.add_comm 1]
        rintro r m'' (⟨added', c, rfl, hc, hwritten', hlength'⟩ |
          ⟨added', rfl, hwritten', hfull, hlength'⟩ | ⟨e, rfl, he, htorn⟩)
        · have hsum := hwritten.trans hwritten'
          rw [← List.length_append] at hsum
          rw [List.append_assoc] at hc hlength'
          refine .inl ⟨added ++ added', c, rfl, hc, hsum, ?_⟩
          rcases hlength' with rfl | hlength'
          · rw [List.append_nil]
            rcases hlength with rfl | hlength
            · exact .inl rfl
            · -- a new block at the end of the first step is where the walk ended
              have hlt := (List.getElem?_eq_some_iff.mp hc).1
              rw [List.append_nil] at hlt
              exact .inr (by omega)
          · exact .inr hlength'
        · have hsum := hwritten.trans hwritten'
          rw [← List.length_append] at hsum
          rw [List.append_assoc] at hlength'
          exact .inr (.inl ⟨added ++ added', rfl, hsum, hfull, hlength'⟩)
        · exact .inr (.inr ⟨e, rfl, he, hwritten.torn htorn⟩)
      · cases hr
      · cases hr

/-! ### Data in pieces -/

/-- How writing `bytes` at `position` of the payload of a chain may end: all of it is written; or
space runs out, and what falls inside the chain is written; or it is cut off after some bytes. -/
def Overlaid (σ : Type) [Store σ] [Faithful σ] (layout : Layout) (m : Content) (chain : List Nat)
    (position : Nat) (bytes : ByteArray) (r : Except Error Unit) (m' : Content) : Prop :=
  (∃ added, r = .ok () ∧
    Written layout m chain added [] added.length
      ((payload layout m chain).put position bytes) m' ∧
    position + bytes.size ≤ capacity layout (chain ++ added) ∧
    (added = [] ∨ capacity layout (chain ++ added) < position + bytes.size + layout.payloadSize)) ∨
  (∃ added, r = .error .outOfSpace ∧
    Written layout m chain added [] added.length ((payload layout m chain).put position
      (bytes.extract 0 (capacity layout (chain ++ added) - position))) m' ∧
    marked layout m' = layout.covered ∧
    capacity layout (chain ++ added) < position + bytes.size) ∨
  ∃ e n, r = .error e ∧ Fault σ e ∧
    Torn layout m chain ((payload layout m chain).put position (bytes.extract 0 n)) m'

/-- The first piece of data is as long as there is room for it. -/
theorem size_le_of_head_pieces {payload count first room : Nat} {data piece : ByteArray}
    (h : piece ∈ (pieces payload data count first room).head?) : piece.size ≤ room := by
  cases count with
  | zero => cases h
  | succ count =>
    obtain rfl := Option.some.inj h
    rw [ByteArray.size_extract]
    omega

/-- Every other piece fits into a payload. -/
theorem size_le_of_tail_pieces {payload count first room : Nat} {data piece : ByteArray}
    (h : piece ∈ (pieces payload data count first room).tail) : piece.size ≤ payload := by
  induction count generalizing first room with
  | zero => cases h
  | succ count ih =>
    rw [pieces, List.tail_cons] at h
    split at h
    · cases h
    · rcases hpieces : pieces payload data count (first + room) payload with _ | ⟨head, tail⟩
      · rw [hpieces] at h
        cases h
      · rw [hpieces] at h
        rcases List.mem_cons.mp h with rfl | htail
        · exact size_le_of_head_pieces (by rw [hpieces]; rfl)
        · exact ih (by rw [hpieces]; exact htail)

theorem extract_zero_append (a b : ByteArray) (n : Nat) :
    (a ++ b).extract 0 (a.size + n) = a ++ b.extract 0 n := by
  refine Bytes.ext_get (by simp) fun i hi => ?_
  rw [ByteArray.size_extract, ByteArray.size_append] at hi
  rw [Bytes.get_extract, if_pos (by omega), Bytes.get_append, Bytes.get_append, Nat.zero_add]
  split
  · rfl
  · rw [Bytes.get_extract, if_pos (by omega), Nat.zero_add]

theorem put_put_append (p : Content) (position : Nat) (a b : ByteArray) :
    (p.put position a).put (position + a.size) b = p.put position (a ++ b) := by
  funext i
  unfold Content.put
  rw [ByteArray.size_append, Bytes.get_append]
  split
  · rw [if_pos (by omega), if_neg (by omega)]
    congr 1
    omega
  · split
    · rw [if_pos (by omega), if_pos (by omega)]
    · rw [if_neg (by omega)]

theorem put_empty (p : Content) (position : Nat) (bytes : ByteArray) (h : bytes.size = 0) :
    p.put position bytes = p := by
  funext i
  exact Content.put_outside p (by omega)

/-- Writing one piece and then the others is writing all of them. -/
theorem Overlaid.of_written {added : List Nat} {position : Nat} {piece rest : ByteArray}
    (h : Written layout m chain added [] added.length
      ((payload layout m chain).put position piece) m')
    (hneeded : added = [] ∨
      capacity layout (chain ++ added) < position + piece.size + rest.size + layout.payloadSize)
    (hinside : position + piece.size ≤ capacity layout (chain ++ added)) {r : Except Error Unit}
    (h' : Overlaid σ layout m' (chain ++ added) (position + piece.size) rest r m'') :
    Overlaid σ layout m chain position (piece ++ rest) r m'' := by
  rw [Overlaid, h.payload_eq] at h'
  rcases h' with ⟨added', rfl, hwritten, hcapacity, hlast⟩ |
    ⟨added', rfl, hwritten, hfull, hshort⟩ | ⟨e, n, rfl, he, htorn⟩
  · -- all of the others was written
    have hsum := h.trans hwritten
    rw [← List.length_append, put_put_append] at hsum
    rw [List.append_assoc] at hcapacity hlast
    refine .inl ⟨added ++ added', rfl, hsum, ?_, ?_⟩
    · rw [ByteArray.size_append]
      omega
    · rw [ByteArray.size_append]
      rcases hlast with rfl | hlast
      · rw [List.append_nil]
        rcases hneeded with rfl | hneeded
        · exact .inl rfl
        · exact .inr (by omega)
      · exact .inr (by omega)
  · -- space ran out among the others, so what is missing is missing from the whole
    have hsum := h.trans hwritten
    rw [← List.length_append, put_put_append, ← extract_zero_append] at hsum
    have hmono : capacity layout (chain ++ added) ≤ capacity layout (chain ++ added ++ added') :=
      Nat.mul_le_mul_right _ (by simp)
    have hsplit : piece.size + (capacity layout (chain ++ added ++ added')
        - (position + piece.size)) = capacity layout (chain ++ added ++ added') - position := by
      omega
    rw [hsplit] at hsum
    rw [List.append_assoc] at hsum hshort
    refine .inr (.inl ⟨added ++ added', rfl, hsum, hfull, ?_⟩)
    rw [ByteArray.size_append]
    omega
  · have hsum := h.torn htorn
    rw [put_put_append, ← extract_zero_append] at hsum
    exact .inr (.inr ⟨e, _, rfl, he, hsum⟩)

/-- A failing write before the first byte of the data. -/
theorem Overlaid.of_torn {position : Nat} {bytes : ByteArray} {e : Error} (he : Fault σ e)
    (htorn : Torn layout m chain (payload layout m chain) m') :
    Overlaid σ layout m chain position bytes (.error e) m' := by
  refine .inr (.inr ⟨e, 0, rfl, he, ?_⟩)
  rw [put_empty _ _ _ (by simp)]
  exact htorn

/-- A chain that cannot be made long enough for the first byte of the data. -/
theorem Overlaid.of_full {added : List Nat} {position : Nat} {bytes : ByteArray}
    (h : Written layout m chain added [] added.length (payload layout m chain) m')
    (hfull : marked layout m' = layout.covered) (hbytes : 0 < bytes.size)
    (hshort : capacity layout (chain ++ added) ≤ position) :
    Overlaid σ layout m chain position bytes (.error .outOfSpace) m' := by
  refine .inr (.inl ⟨added, rfl, ?_, hfull, by omega⟩)
  rw [put_empty _ _ _ (by rw [ByteArray.size_extract]; omega)]
  exact h

/-- A chain that is made longer before the data is written. -/
theorem Overlaid.of_grown {added : List Nat} {position : Nat} {bytes : ByteArray}
    (h : Written layout m chain added [] added.length (payload layout m chain) m')
    (hneeded : added = [] ∨
      capacity layout (chain ++ added) < position + bytes.size + layout.payloadSize)
    (hinside : position ≤ capacity layout (chain ++ added)) {r : Except Error Unit}
    (h' : Overlaid σ layout m' (chain ++ added) position bytes r m'') :
    Overlaid σ layout m chain position bytes r m'' := by
  rw [← put_empty (payload layout m chain) position ByteArray.empty rfl] at h
  have hsum := Overlaid.of_written h hneeded hinside h'
  rwa [ByteArray.empty_append] at hsum

/-- Data that falls into block `k` is written at once. -/
theorem writeLast_ends (regular : layout.Arranged IsSize) (hsize : layout.endAddress ≤ size)
    (intact : Intact layout m chain) {k a inBlock : Nat} {bytes : ByteArray}
    (ha : chain[k]? = some a) (hend : inBlock + bytes.size ≤ layout.payloadSize) :
    (Store.write (a + Layout.linkSize + inBlock) bytes : Edit σ Unit).Ends size m
      (Overlaid σ layout m chain (k * layout.payloadSize + inBlock) bytes) := by
  have hsum := payloadSize_add regular
  have hblock := regular.end_of_mem (intact.covered (List.mem_of_getElem? ha))
  have hlength := (List.getElem?_eq_some_iff.mp ha).1
  have hreach : (k + 1) * layout.payloadSize ≤ capacity layout chain :=
    Nat.mul_le_mul_right _ hlength
  rw [Nat.succ_mul] at hreach
  refine .write (by omega) (.inl ⟨[], rfl, .of_put regular intact _ _ ha hend, ?_, .inl rfl⟩) ?_
  · rw [List.append_nil]
    omega
  · exact fun e he => .of_torn he (.refl intact)

/-- A step to the next block with data to be written there. -/
theorem step_ends (regular : layout.Arranged IsSize) (hsize : layout.endAddress ≤ size)
    (intact : Intact layout m chain) {k a : Nat} (ha : chain[k]? = some a) (bytes : ByteArray)
    (hbytes : 0 < bytes.size) {rest : Nat → Edit σ Unit}
    (hrest : ∀ {m' chain' b}, Intact layout m' chain' → chain'[k + 1]? = some b →
      (rest b).Ends size m'
        (Overlaid σ layout m' chain' ((k + 1) * layout.payloadSize + 0) bytes)) :
    (nextOrExtend layout a >>= rest).Ends size m
      (Overlaid σ layout m chain ((k + 1) * layout.payloadSize) bytes) := by
  refine .bind (nextOrExtend_ends regular hsize intact ha) ?_ ?_
  · rintro e m' (⟨added, b, hr, -⟩ | ⟨hr, hend, hfull, rfl⟩ | ⟨e', hr, he, htorn⟩)
    · cases hr
    · -- the chain ends with block `k`, and there is none to go on with
      cases hr
      refine .of_full (.refl intact) hfull hbytes ?_
      rw [List.append_nil, capacity, hend]
    · cases hr
      exact .of_torn he htorn
  · rintro b m' (⟨added, b', hr, hb, hwritten, hlength⟩ | ⟨hr, -⟩ | ⟨e', hr, -⟩)
    · cases hr
      have hreach : (k + 1) * layout.payloadSize ≤ capacity layout (chain ++ added) := by
        have := (List.getElem?_eq_some_iff.mp hb).1
        exact Nat.mul_le_mul_right _ (by omega)
      refine (hrest hwritten.intact hb).mono fun r m'' h => .of_grown hwritten ?_ hreach h
      rcases hlength with rfl | hlength
      · exact .inl rfl
      · right
        rw [capacity, hlength, Nat.succ_mul (k + 1)]
        omega
    · cases hr
    · cases hr

/-- Data from `first` on that falls into block `k` is a single piece. -/
theorem writePieces_last_ends (regular : layout.Arranged IsSize)
    (hsize : layout.endAddress ≤ size) (data : ByteArray) (count : Nat) {first k a inBlock : Nat}
    (intact : Intact layout m chain) (ha : chain[k]? = some a) (hin : inBlock < layout.payloadSize)
    (hdone : data.size ≤ first + (layout.payloadSize - inBlock)) :
    (writePieces layout a inBlock
        (pieces layout.payloadSize data (count + 1) first (layout.payloadSize - inBlock)) :
      Edit σ Unit).Ends size m (Overlaid σ layout m chain (k * layout.payloadSize + inBlock)
        (data.extract first data.size)) := by
  have hpiece : data.extract first (first + (layout.payloadSize - inBlock))
      = data.extract first data.size := by
    refine Bytes.ext_get (by simp only [ByteArray.size_extract]; omega) fun i hi => ?_
    rw [ByteArray.size_extract] at hi
    rw [Bytes.get_extract, Bytes.get_extract, if_pos (by omega), if_pos (by omega)]
  rw [pieces, if_pos hdone, hpiece]
  exact writeLast_ends regular hsize intact ha (by rw [ByteArray.size_extract]; omega)

/-- Data from `first` on, written piece by piece from a place in block `k` on. -/
theorem writePieces_ends (regular : layout.Arranged IsSize) (hsize : layout.endAddress ≤ size)
    (data : ByteArray) (count : Nat) {first k a inBlock : Nat} (intact : Intact layout m chain)
    (ha : chain[k]? = some a) (hin : inBlock < layout.payloadSize)
    (hcount : data.size ≤ first + (layout.payloadSize - inBlock) + count * layout.payloadSize) :
    (writePieces layout a inBlock
        (pieces layout.payloadSize data (count + 1) first (layout.payloadSize - inBlock)) :
      Edit σ Unit).Ends size m (Overlaid σ layout m chain (k * layout.payloadSize + inBlock)
        (data.extract first data.size)) := by
  induction count generalizing m chain first k a inBlock with
  | zero => exact writePieces_last_ends regular hsize data 0 intact ha hin (by omega)
  | succ count ih =>
    by_cases hdone : data.size ≤ first + (layout.payloadSize - inBlock)
    · exact writePieces_last_ends regular hsize data _ intact ha hin hdone
    · -- this piece fills its block, and the others follow in the next one
      have hmul : (count + 1) * layout.payloadSize
          = count * layout.payloadSize + layout.payloadSize := Nat.succ_mul ..
      have hplace : (k + 1) * layout.payloadSize = k * layout.payloadSize + layout.payloadSize :=
        Nat.succ_mul ..
      have hsum := payloadSize_add regular
      have hblock := regular.end_of_mem (intact.covered (List.mem_of_getElem? ha))
      have hpiece : (data.extract first (first + (layout.payloadSize - inBlock))).size
          = layout.payloadSize - inBlock := by
        rw [ByteArray.size_extract]
        omega
      have hput := Written.of_put regular intact inBlock
        (data.extract first (first + (layout.payloadSize - inBlock))) ha (by omega)
      have intact' := hput.intact
      rw [List.append_nil] at intact'
      have hstep := step_ends (σ := σ) regular hsize intact' ha
        (data.extract (first + (layout.payloadSize - inBlock)) data.size)
        (by rw [ByteArray.size_extract]; omega) fun intact'' hb =>
          ih intact'' hb (payloadSize_pos regular) (by omega)
      have hmiddle : first + (layout.payloadSize - inBlock) ≤ data.size := by omega
      rw [← Bytes.extract_append_extract (Nat.le_add_right first _) hmiddle, pieces, if_neg hdone,
        writePieces]
      · refine .write_bind (by omega) ?_ (hstep.mono fun r m' h => ?_)
        · exact fun e he => .of_torn he (.refl intact)
        · have hreach : (k + 1) * layout.payloadSize ≤ capacity layout chain :=
            Nat.mul_le_mul_right _ (List.getElem?_eq_some_iff.mp ha).1
          have hnext : k * layout.payloadSize + inBlock + (layout.payloadSize - inBlock)
              = (k + 1) * layout.payloadSize := by omega
          refine Overlaid.of_written hput (.inl rfl) ?_ ?_
          · rw [hpiece, List.append_nil]
            omega
          · rw [hpiece, List.append_nil, hnext]
            exact h
      · rw [pieces]
        exact List.cons_ne_nil _ _

/-- A write to an intact chain lays the data over its payload. If space runs out on the way, the
chain has taken up all there was and holds the part of the data that falls inside. -/
theorem writeRange_ends (regular : layout.Arranged IsSize) (hsize : layout.endAddress ≤ size)
    (intact : Intact layout m chain) {start : Nat} (hstart : chain[0]? = some start) (offset : Nat)
    {data : ByteArray} (hdata : 0 < data.size) :
    (writeRange layout start offset data : Edit σ Unit).Ends size m
      (Overlaid σ layout m chain offset data) := by
  have hpos := payloadSize_pos regular
  have hsplit := Nat.div_add_mod' offset layout.payloadSize
  have hmod := Nat.mod_lt offset hpos
  have hstart' := regular.inData_of_mem (intact.covered (List.mem_of_getElem? hstart))
  unfold writeRange
  rw [if_neg (not_not.mpr hstart'), if_neg (by omega)]
  dsimp only
  refine .bind (advance_ends regular hsize intact hstart (offset / layout.payloadSize)) ?_ ?_
  · rintro e m' (⟨added, b, hr, -⟩ | ⟨added, hr, hwritten, hfull, hlength⟩ | ⟨e', hr, he, htorn⟩)
    · cases hr
    · -- space ran out on the way to the first block, so no data was written
      cases hr
      have hcapacity : capacity layout (chain ++ added)
          ≤ offset / layout.payloadSize * layout.payloadSize :=
        Nat.mul_le_mul_right _ (by omega)
      exact .of_full hwritten hfull hdata (by omega)
    · cases hr
      exact .of_torn he htorn
  · rintro a m' (⟨added, b, hr, hb, hwritten, hlength⟩ | ⟨added, hr, -⟩ | ⟨e', hr, -⟩)
    · cases hr
      rw [Nat.zero_add] at hb hlength
      -- the walk has come to the block of the offset, and the pieces are written from there on
      have hblocks := le_blocksFor_mul regular (offset % layout.payloadSize + data.size)
      obtain ⟨count, hcount⟩ : ∃ count,
          blocksFor layout (offset % layout.payloadSize + data.size) = count + 1 := by
        refine Nat.exists_eq_succ_of_ne_zero fun hzero => ?_
        rw [hzero, Nat.zero_mul] at hblocks
        omega
      have hreach : (offset / layout.payloadSize + 1) * layout.payloadSize
          ≤ capacity layout (chain ++ added) :=
        Nat.mul_le_mul_right _ (List.getElem?_eq_some_iff.mp hb).1
      rw [hcount, Nat.succ_mul] at hblocks
      rw [Nat.succ_mul] at hreach
      have hpieces := writePieces_ends (σ := σ) regular hsize data count hwritten.intact hb hmod
        (show data.size ≤ 0 + (layout.payloadSize - offset % layout.payloadSize)
          + count * layout.payloadSize by omega)
      have hwhole : data.extract 0 data.size = data := ByteArray.extract_zero_size
      rw [hsplit, hwhole] at hpieces
      rw [hcount]
      refine hpieces.mono fun r m'' h => .of_grown hwritten ?_ (by omega) h
      rcases hlength with rfl | hlength
      · exact .inl rfl
      · right
        rw [capacity, hlength, Nat.succ_mul]
        omega
    · cases hr
    · cases hr

end Walk

end ChainFs.Chain
