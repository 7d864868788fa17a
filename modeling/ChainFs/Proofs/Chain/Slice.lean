import ChainFs.Proofs.Chain.Payload
import ChainFs.Store.File

/-!
# Reading chains of any kind

A read follows the links of whatever blocks it meets, and of each block it brings only the piece it
needs. Nothing is asked here of the chain: it may be short, run in circles or lead astray.

* `Store.Ended` — stores that are read in front of some address and not behind it;
* `Chain.walk`, `Chain.joined` — the first blocks of a chain as the links say, and their payloads
  one behind the other;
* `Chain.readRange_eq_ok_iff` — when a read succeeds, and that it brings a slice of these payloads;
* `Chain.readRange_slices` — a read is a slice, it tells a bad link only if it needs it, and two
  reads that meet bring what one read brings.

A read fails at the first link that is bad among those it needs, and it needs only the links in
front of the last block it has to come to. So the condition for a read to succeed is stated along
its blocks, as `Chain.Readable`, and the failure is found by the same induction: see
`Chain.gather_error_of_find` and `Chain.readRange_error_of_find`.
-/

namespace ChainFs

namespace Store

/-- A store that answers a read, unless it is an empty one, with what it holds if the read ends by a
certain address, and with a failed access if not. -/
class Ended (σ : Type) [Store σ] where
  /-- What it holds. -/
  held : σ → Content
  /-- The address by which a read has to end. -/
  reach : σ → Nat
  read_within : ∀ {store : σ} {offset length : Nat}, 0 < length → offset + length ≤ reach store →
    Store.read store offset length = .ok ((held store).window offset length)
  read_past : ∀ {store : σ} {offset length : Nat}, 0 < length → reach store < offset + length →
    ∃ fault, Store.read store offset length = .error (.io fault)

export Ended (held reach read_within read_past)

/-- Bytes in memory are read up to the last one. -/
instance : Ended Memory where
  held store := Bytes.get store.bytes
  reach store := store.bytes.size
  read_within _ h := read_eq (σ := Memory) h
  read_past _ h := ⟨.pastEnd _ _, if_neg (Nat.not_le_of_lt h)⟩

/-- A file is read up to its last byte, as far as there are positions. -/
instance : Ended File where
  held file := file.content.get
  reach file := min file.content.size (File.positionLimit - 1)
  read_within {file offset length} hlength h := by
    have hread : Store.read file offset length = _ := if_neg (Nat.ne_of_gt hlength)
    rw [hread, if_neg (by omega), if_pos (by omega)]
    refine congrArg Except.ok (Bytes.ext_get (by simp) fun i hi => ?_)
    rw [Bytes.Sparse.size_read] at hi
    rw [Bytes.Sparse.get_read, if_pos hi, Content.get_window _ hi]
  read_past {file offset length} hlength h := by
    have hread : Store.read file offset length = _ := if_neg (Nat.ne_of_gt hlength)
    rw [hread]
    split
    · exact ⟨_, rfl⟩
    · rw [if_neg (by omega)]
      exact ⟨_, rfl⟩

end Store

namespace Chain

open Store

variable {layout : Layout} {m : Content}

/-! ## The blocks of a chain -/

/-- The first `count` blocks of the chain that starts at `address`, as the links say, and fewer
where a link leads nowhere. -/
def walk (layout : Layout) (m : Content) : (count address : Nat) → List Nat
  | 0, _ => []
  | count + 1, address =>
    if address = 0 then [] else address :: walk layout m count (target layout m address)

/-- The payloads of the blocks of a list, one behind the other. -/
def joined (layout : Layout) (m : Content) (chain : List Nat) : ByteArray :=
  (payload layout m chain).window 0 (capacity layout chain)

theorem walk_zero (count : Nat) : walk layout m count 0 = [] := by
  cases count <;> rfl

theorem walk_succ (count : Nat) {address : Nat} (h : address ≠ 0) :
    walk layout m (count + 1) address
      = address :: walk layout m count (target layout m address) := by
  rw [walk, if_neg h]

/-- Behind fewer blocks than were asked for the chain ends. -/
theorem ends_of_walk_lt {count address : Nat}
    (h : (walk layout m count address).length < count) :
    ((walk layout m count address).getLast?.map (target layout m)).getD address = 0 := by
  induction count generalizing address with
  | zero => exact absurd h (Nat.not_lt_zero _)
  | succ count ih =>
    by_cases hzero : address = 0
    · rw [hzero, walk_zero]
      rfl
    · rw [walk_succ count hzero] at h ⊢
      have hrest := ih (Nat.lt_of_succ_lt_succ h)
      rcases hwalk : walk layout m count (target layout m address) with _ | ⟨next, rest⟩
      · rw [hwalk] at hrest
        exact hrest
      · rw [hwalk] at hrest
        rw [List.getLast?_cons_cons]
        rcases hlast : (next :: rest).getLast? with _ | last
        · simp at hlast
        · rw [hlast] at hrest
          exact hrest

@[simp] theorem joined_nil : joined layout m [] = ByteArray.empty := by
  rw [joined, capacity, List.length_nil, Nat.zero_mul, Content.window_zero]

@[simp] theorem size_joined (chain : List Nat) :
    (joined layout m chain).size = capacity layout chain :=
  Content.size_window ..

theorem joined_cons (a : Nat) (rest : List Nat) :
    joined layout m (a :: rest)
      = m.window (a + Layout.linkSize) layout.payloadSize ++ joined layout m rest := by
  have hcapacity : capacity layout (a :: rest) = layout.payloadSize + capacity layout rest := by
    rw [capacity, capacity, List.length_cons, Nat.succ_mul, Nat.add_comm]
  have hfirst : (payload layout m (a :: rest)).window 0 layout.payloadSize
      = m.window (a + Layout.linkSize) layout.payloadSize := by
    refine Content.window_congr fun i hi => ?_
    rw [← Nat.zero_mul layout.payloadSize]
    exact payload_eq (k := 0) rfl hi
  have hrest : (payload layout m (a :: rest)).window (0 + layout.payloadSize)
      (capacity layout rest) = joined layout m rest := by
    refine Content.window_congr fun i hi => ?_
    have hpos : 0 < layout.payloadSize :=
      Nat.pos_of_mul_pos_left (Nat.lt_of_le_of_lt (Nat.zero_le i) hi)
    rw [payload, payload, Nat.zero_add, Nat.zero_add, Nat.add_comm, Nat.add_div_right _ hpos,
      Nat.add_mod_right, List.getElem?_cons_succ]
  rw [joined, hcapacity, ← Content.window_append, hfirst, hrest]

/-- A stretch of the joined payloads: what of it lies in the first block, and what lies behind. -/
theorem extract_joined_cons (a : Nat) (rest : List Nat) (start stop : Nat) :
    (joined layout m (a :: rest)).extract start stop
      = (m.window (a + Layout.linkSize) layout.payloadSize).extract start stop
        ++ (joined layout m rest).extract (start - layout.payloadSize)
            (stop - layout.payloadSize) := by
  rw [joined_cons, ByteArray.extract_append, Content.size_window]

/-- Blocks that lie behind a stretch do not matter for it. -/
theorem extract_joined_walk {count more start stop : Nat} (h : count ≤ more)
    (hstop : stop ≤ count * layout.payloadSize) (address : Nat) :
    (joined layout m (walk layout m count address)).extract start stop
      = (joined layout m (walk layout m more address)).extract start stop := by
  induction count generalizing more start stop address with
  | zero =>
    have hnone : stop = 0 := by omega
    rw [ByteArray.extract_eq_empty_iff.mpr (by omega),
      ByteArray.extract_eq_empty_iff.mpr (by omega)]
  | succ count ih =>
    obtain ⟨more, rfl⟩ : ∃ rest, more = rest + 1 := ⟨more - 1, by omega⟩
    by_cases hzero : address = 0
    · rw [hzero, walk_zero, walk_zero]
    · rw [Nat.succ_mul] at hstop
      rw [walk_succ _ hzero, walk_succ _ hzero, extract_joined_cons, extract_joined_cons,
        ih (Nat.le_of_succ_le_succ h) (by omega)]

/-! ## What a read needs -/

/-- What a read of `[offset, stop)` needs of blocks of which the first holds the payload from
`position` on: that the pieces and the links that it reads end by `limit`, and that these links lead
to the data region or nowhere. -/
def Readable (layout : Layout) (m : Content) (limit offset stop : Nat) :
    (position : Nat) → List Nat → Prop
  | _, [] => True
  | position, a :: rest =>
    (offset < position + layout.payloadSize →
      a + Layout.linkSize + (min stop (position + layout.payloadSize) - position) ≤ limit) ∧
    (position + layout.payloadSize < stop → a + Layout.linkSize ≤ limit ∧
      (target layout m a = 0 ∨ layout.InData (target layout m a))) ∧
    Readable layout m limit offset stop (position + layout.payloadSize) rest

/-- A read of less needs less. -/
theorem Readable.mono {limit offset offset' stop stop' count more position address : Nat}
    (h : Readable layout m limit offset stop position (walk layout m more address))
    (hoffset : offset ≤ offset') (hstop : stop' ≤ stop) (hcount : count ≤ more) :
    Readable layout m limit offset' stop' position (walk layout m count address) := by
  induction count generalizing more position address with
  | zero => trivial
  | succ count ih =>
    obtain ⟨more, rfl⟩ : ∃ rest, more = rest + 1 := ⟨more - 1, by omega⟩
    by_cases hzero : address = 0
    · rw [hzero, walk_zero]
      trivial
    · rw [walk_succ _ hzero] at h ⊢
      obtain ⟨hpiece, hlink, hrest⟩ := h
      refine ⟨fun hlt => ?_, fun hlt => hlink (by omega), ih hrest (by omega)⟩
      have := hpiece (by omega)
      omega

/-- Nothing more is needed than that the blocks end by the limit and all but the first one, which
links lead to, are in the data region. The link of the last one does not matter. -/
theorem readable_of_inside {limit offset stop count position address : Nat}
    (hlink : Layout.linkSize ≤ layout.blockSize)
    (hcount : stop ≤ position + count * layout.payloadSize)
    (hinside : ∀ a ∈ walk layout m count address, a + layout.blockSize ≤ limit)
    (hdata : ∀ a ∈ (walk layout m count address).tail, layout.InData a) :
    Readable layout m limit offset stop position (walk layout m count address) := by
  have hsum : Layout.linkSize + layout.payloadSize = layout.blockSize :=
    Nat.add_sub_cancel' hlink
  induction count generalizing position address with
  | zero => trivial
  | succ count ih =>
    by_cases hzero : address = 0
    · rw [hzero, walk_zero]
      trivial
    rw [walk_succ _ hzero] at hinside hdata ⊢
    have hend := hinside address (List.mem_cons_self ..)
    rw [Nat.succ_mul] at hcount
    refine ⟨fun _ => by omega, fun hlt => ⟨by omega, ?_⟩, ih (by omega)
      (fun a ha => hinside a (List.mem_cons_of_mem _ ha))
      fun a ha => hdata a (List.mem_of_mem_tail ha)⟩
    by_cases htarget : target layout m address = 0
    · exact .inl htarget
    · -- another block is needed, and so the link is one of those that lead to the data region
      obtain ⟨rest, rfl⟩ : ∃ rest, count = rest + 1 :=
        Nat.exists_eq_add_one_of_ne_zero (by rintro rfl; omega)
      refine .inr (hdata _ ?_)
      rw [List.tail_cons, walk_succ _ htarget]
      exact List.mem_cons_self ..

/-! ## The loop -/

section Gather

variable {σ : Type} [Store σ] [Ended σ] {store : σ}

/-- The ways in which following a link ends. -/
theorem next_cases (layout : Layout) (store : σ) (a : Nat) :
    (a + Layout.linkSize ≤ reach store ∧
      (target layout (held store) a = 0 ∨ layout.InData (target layout (held store) a)) ∧
      next layout store a = .ok (target layout (held store) a)) ∨
    (a + Layout.linkSize ≤ reach store ∧ target layout (held store) a ≠ 0 ∧
      ¬ layout.InData (target layout (held store) a) ∧
      next layout store a = .error (.invalidAddress (target layout (held store) a))) ∨
    (reach store < a + Layout.linkSize ∧ ∃ fault, next layout store a = .error (.io fault)) := by
  rcases Nat.lt_or_ge (reach store) (a + Layout.linkSize) with hpast | hwithin
  · obtain ⟨fault, hread⟩ := read_past (Nat.succ_pos 3) hpast
    refine .inr (.inr ⟨hpast, fault, ?_⟩)
    rw [next, Store.readNumber, hread]
    rfl
  · have hnext : next layout store a =
        if target layout (held store) a ≠ 0 ∧ ¬ layout.InData (target layout (held store) a) then
          .error (.invalidAddress (target layout (held store) a))
        else .ok (target layout (held store) a) := by
      rw [next, Store.readNumber, read_within (Nat.succ_pos 3) hwithin]
      simp only [bind, Except.bind, pure, Except.pure, Content.number_window_zero]
      rfl
    by_cases hbad : target layout (held store) a ≠ 0 ∧
        ¬ layout.InData (target layout (held store) a)
    · exact .inr (.inl ⟨hwithin, hbad.1, hbad.2, hnext.trans (if_pos hbad)⟩)
    · exact .inl ⟨hwithin, by tauto, hnext.trans (if_neg hbad)⟩

variable {offset stop position : Nat} (hpos : 0 < layout.payloadSize) (hoffset : offset < stop)
include hpos hoffset

/-- The ways in which a piece is read. -/
theorem piece_cases (store : σ) (a : Nat) (hposition : position < stop) :
    ((offset < position + layout.payloadSize →
        a + Layout.linkSize + (min stop (position + layout.payloadSize) - position)
          ≤ reach store) ∧
      piece layout store offset stop a position = .ok
        (((held store).window (a + Layout.linkSize) layout.payloadSize).extract
          (offset - position) (stop - position))) ∨
    ((offset < position + layout.payloadSize ∧ reach store <
        a + Layout.linkSize + (min stop (position + layout.payloadSize) - position)) ∧
      ∃ fault, piece layout store offset stop a position = .error (.io fault)) := by
  rw [Content.extract_window]
  unfold piece
  split
  · rename_i hlt
    have hlength : 0 < min stop (position + layout.payloadSize) - max offset position := by omega
    rcases Nat.lt_or_ge (reach store)
      (a + Layout.linkSize + (min stop (position + layout.payloadSize) - position)) with
      hpast | hwithin
    · exact .inr ⟨⟨hlt, hpast⟩, read_past hlength (by omega)⟩
    · refine .inl ⟨fun _ => hwithin, (read_within hlength (by omega)).trans ?_⟩
      congr 2 <;> omega
  · rename_i hge
    have hnone : min (stop - position) layout.payloadSize - (offset - position) = 0 := by omega
    exact .inl ⟨fun hlt => absurd hlt hge, by rw [hnone, Content.window_zero]⟩

/-- What is gathered is the stretch of the joined payloads, if what that needs is there. -/
theorem gather_eq_ok_iff {blocks address : Nat}
    (hlow : stop ≤ position + blocks * layout.payloadSize)
    (hhigh : position + blocks * layout.payloadSize < stop + layout.payloadSize)
    (out bytes : ByteArray) :
    gather layout store offset stop blocks address position out = .ok bytes ↔
      Readable layout (held store) (reach store) offset stop position
        (walk layout (held store) blocks address) ∧
      bytes = out ++ (joined layout (held store) (walk layout (held store) blocks address)).extract
        (offset - position) (stop - position) := by
  induction blocks generalizing address position out with
  | zero =>
    have hnone : (ByteArray.empty.extract (offset - position) (stop - position)) = .empty :=
      ByteArray.extract_eq_empty_iff.mpr (by simp)
    rw [gather, walk, joined_nil, hnone, ByteArray.append_empty, Except.ok.injEq, eq_comm]
    exact (and_iff_right trivial).symm
  | succ blocks ih =>
    by_cases hzero : address = 0
    · have hnone : (ByteArray.empty.extract (offset - position) (stop - position)) = .empty :=
        ByteArray.extract_eq_empty_iff.mpr (by simp)
      rw [gather, if_pos hzero, hzero, walk_zero, joined_nil, hnone, ByteArray.append_empty,
        Except.ok.injEq, eq_comm]
      exact (and_iff_right trivial).symm
    -- the piece is what of the stretch lies in the first block, and the rest is gathered behind it
    rw [Nat.succ_mul] at hlow hhigh
    rw [gather, if_neg hzero, walk_succ _ hzero, extract_joined_cons, ← ByteArray.append_assoc,
      Readable, Nat.sub_sub, Nat.sub_sub]
    have hposition : position < stop := by omega
    rcases piece_cases hpos hoffset store address hposition with
      ⟨hwithin, hpiece⟩ | ⟨⟨hlt, hpast⟩, fault, hpiece⟩
    · rw [hpiece]
      simp only [bind, Except.bind]
      by_cases hmore : position + layout.payloadSize < stop
      · rw [if_pos hmore]
        rcases next_cases layout store address with
          ⟨hlink, hleads, hnext⟩ | ⟨-, hne, hout, hnext⟩ | ⟨hpast, fault, hnext⟩
        · rw [hnext]
          dsimp only
          rw [ih (by omega) (by omega)]
          tauto
        · rw [hnext]
          refine iff_of_false nofun fun ⟨⟨_, hlink, _⟩, _⟩ => ?_
          exact absurd (hlink hmore).2 (by tauto)
        · rw [hnext]
          refine iff_of_false nofun fun ⟨⟨_, hlink, _⟩, _⟩ => ?_
          exact absurd (hlink hmore).1 (by omega)
      · -- the last block that is needed
        obtain rfl : blocks = 0 := by
          rcases Nat.eq_zero_or_pos blocks with hnone | hsome
          · exact hnone
          · have := Nat.mul_le_mul_right layout.payloadSize hsome
            omega
        have hnone : ∀ start stop, ByteArray.empty.extract start stop = ByteArray.empty :=
          fun start stop => ByteArray.extract_eq_empty_iff.mpr (by simp)
        rw [if_neg hmore, walk, joined_nil, hnone, ByteArray.append_empty]
        simp only [pure, Except.pure, Except.ok.injEq, Readable, eq_comm]
        tauto
    · rw [hpiece]
      refine iff_of_false nofun fun ⟨⟨hpiece, _⟩, _⟩ => ?_
      exact absurd (hpiece hlt) (by omega)

/-- A bad link that is told is the first one among those that lead to the blocks that are needed. -/
theorem find_of_gather_error {blocks address x : Nat}
    (hlow : stop ≤ position + blocks * layout.payloadSize)
    (hhigh : position + blocks * layout.payloadSize < stop + layout.payloadSize) {out : ByteArray}
    (h : gather layout store offset stop blocks address position out
      = .error (.invalidAddress x)) :
    (walk layout (held store) blocks address).tail.find? (fun a => ¬ layout.InData a)
      = some x := by
  induction blocks generalizing position address out with
  | zero => cases h
  | succ blocks ih =>
    by_cases hzero : address = 0
    · rw [gather, if_pos hzero] at h
      cases h
    rw [Nat.succ_mul] at hlow hhigh
    rw [gather, if_neg hzero] at h
    rw [walk_succ _ hzero, List.tail_cons]
    have hposition : position < stop := by omega
    rcases piece_cases hpos hoffset store address hposition with
      ⟨-, hpiece⟩ | ⟨-, fault, hpiece⟩
    · rw [hpiece] at h
      simp only [bind, Except.bind] at h
      split at h
      · obtain ⟨blocks, rfl⟩ : ∃ rest, blocks = rest + 1 :=
          Nat.exists_eq_add_one_of_ne_zero (by rintro rfl; omega)
        rcases next_cases layout store address with
          ⟨-, hzero | hdata, hnext⟩ | ⟨-, hne, hout, hnext⟩ | ⟨-, fault, hnext⟩
        · rw [hnext, hzero] at h
          cases h
        · -- the link is good, and so the bad one comes later
          rw [hnext] at h
          have hrest := ih (by omega) (by omega) h
          have hne : target layout (held store) address ≠ 0 := by
            intro hzero
            rw [hzero, walk_zero] at hrest
            cases hrest
          rw [walk_succ _ hne] at hrest ⊢
          rw [List.find?_cons_of_neg (by simpa using hdata)]
          exact hrest
        · rw [hnext] at h
          obtain rfl := Error.invalidAddress.inj (Except.error.inj h)
          rw [walk_succ _ hne, List.find?_cons_of_pos (by simpa using hout)]
        · rw [hnext] at h
          cases h
      · cases h
    · rw [hpiece] at h
      cases h

/-- The first bad link is told, if the blocks up to it are in the store. -/
theorem gather_error_of_find {blocks address x : Nat}
    (hhigh : position + blocks * layout.payloadSize < stop + layout.payloadSize)
    (hinside : ∀ a ∈ walk layout (held store) blocks address, a = address ∨ layout.InData a →
      a + layout.blockSize ≤ reach store)
    (hfind : (walk layout (held store) blocks address).tail.find? (fun a => ¬ layout.InData a)
      = some x) (out : ByteArray) :
    gather layout store offset stop blocks address position out = .error (.invalidAddress x) := by
  have hsum : Layout.linkSize + layout.payloadSize = layout.blockSize :=
    Nat.add_sub_cancel' (Nat.le_of_lt (Nat.lt_of_sub_pos hpos))
  induction blocks generalizing position address out with
  | zero => cases hfind
  | succ blocks ih =>
    have hzero : address ≠ 0 := by
      rintro rfl
      rw [walk_zero] at hfind
      cases hfind
    rw [walk_succ _ hzero] at hinside hfind
    rw [List.tail_cons] at hfind
    obtain ⟨rest, rfl⟩ : ∃ rest, blocks = rest + 1 :=
      Nat.exists_eq_add_one_of_ne_zero (by rintro rfl; cases hfind)
    have hne : target layout (held store) address ≠ 0 := by
      intro hnone
      rw [hnone, walk_zero] at hfind
      cases hfind
    have hend := hinside address (List.mem_cons_self ..) (.inl rfl)
    rw [Nat.succ_mul, Nat.succ_mul] at hhigh
    have hmore : position + layout.payloadSize < stop := by omega
    rw [gather, if_neg hzero]
    rcases piece_cases hpos hoffset store address (show position < stop by omega) with
      ⟨-, hpiece⟩ | ⟨⟨-, hpast⟩, -⟩
    · rw [hpiece]
      simp only [bind, Except.bind]
      rw [if_pos hmore]
      rcases next_cases layout store address with
        ⟨-, hleads, hnext⟩ | ⟨-, -, hout, hnext⟩ | ⟨hpast, -⟩
      · -- a good link leads to a block behind which the bad one is found
        have hdata := hleads.resolve_left hne
        rw [walk_succ _ hne, List.find?_cons_of_neg (by simpa using hdata)] at hfind
        rw [hnext]
        refine ih (by rw [Nat.succ_mul]; omega) (fun a ha hor => ?_) ?_ _
        · exact hinside a (List.mem_cons_of_mem _ ha) (.inr (hor.elim (· ▸ hdata) id))
        · rw [walk_succ _ hne]
          exact hfind
      · rw [walk_succ _ hne, List.find?_cons_of_pos (by simpa using hout)] at hfind
        rw [hnext, Option.some.inj hfind]
      · omega
    · omega

end Gather

/-! ## Reads -/

variable {σ : Type} [Store σ] [Ended σ] {store : σ} {start total offset length : Nat}

/-- A read succeeds if what it needs is there, and brings the slice of the joined payloads. -/
theorem readRange_eq_ok_iff (hpos : 0 < layout.payloadSize) (stop : Nat)
    (hstop : stop = min (offset + length) total) (bytes : ByteArray) :
    readRange layout store start total offset length = .ok bytes ↔
      (offset < stop → Readable layout (held store) (reach store) offset stop 0
        (walk layout (held store) (blocksFor layout stop) start)) ∧
      bytes = (joined layout (held store)
        (walk layout (held store) (blocksFor layout stop) start)).extract offset stop := by
  unfold readRange
  split
  · have hnone : stop ≤ offset := by omega
    rw [ByteArray.extract_eq_empty_iff.mpr (by omega), Except.ok.injEq, eq_comm]
    exact (and_iff_right fun hlt => absurd hlt (by omega)).symm
  · have hoffset : offset < stop := by omega
    have hbounds := blocksFor_bounds hpos stop
    dsimp only
    rw [← hstop, visitsFor, if_neg (Nat.ne_of_gt hpos),
      gather_eq_ok_iff hpos hoffset (by omega) (by omega), ByteArray.empty_append, Nat.sub_zero,
      Nat.sub_zero]
    exact and_congr_left fun _ => ⟨fun h _ => h, fun h => h hoffset⟩

/-- A read that needs a block which a bad link leads to is refused for this link, if the blocks up
to there are in the store. -/
theorem readRange_error_of_find (hpos : 0 < layout.payloadSize) {stop x : Nat}
    (hstop : stop = min (offset + length) total) (hlt : offset < stop)
    (hinside : ∀ a ∈ walk layout (held store) (blocksFor layout stop) start,
      a = start ∨ layout.InData a → a + layout.blockSize ≤ reach store)
    (hfind : (walk layout (held store) (blocksFor layout stop) start).tail.find?
      (fun a => ¬ layout.InData a) = some x) :
    readRange layout store start total offset length = .error (.invalidAddress x) := by
  have hbounds := blocksFor_bounds hpos stop
  rw [readRange, if_neg (by omega)]
  dsimp only
  rw [← hstop, visitsFor, if_neg (Nat.ne_of_gt hpos)]
  exact gather_error_of_find hpos hlt (by omega) hinside hfind _

omit [Ended σ] in
/-- Where blocks have no payload, what is gathered is nothing, and which stretch is asked for does
not matter. -/
theorem gather_of_no_payload (hnone : layout.payloadSize = 0) {stop blocks address : Nat}
    (hstop : 0 < stop) {out bytes : ByteArray}
    (h : gather layout store offset stop blocks address 0 out = .ok bytes) :
    bytes = out ∧
      ∀ offset' stop', gather layout store offset' stop' blocks address 0 out = .ok out := by
  have hpiece : ∀ offset stop address, piece layout store offset stop address 0
      = .ok ByteArray.empty := by
    intro offset stop address
    rw [piece, hnone, if_neg (Nat.not_lt_zero offset)]
  induction blocks generalizing address with
  | zero => exact ⟨(Except.ok.inj h).symm, fun _ _ => rfl⟩
  | succ blocks ih =>
    by_cases hzero : address = 0
    · rw [gather, if_pos hzero] at h
      exact ⟨(Except.ok.inj h).symm, fun _ _ => by rw [gather, if_pos hzero]⟩
    rw [gather, if_neg hzero, hpiece, hnone] at h
    simp only [bind, Except.bind, ByteArray.append_empty, if_pos hstop] at h
    rcases hnext : next layout store address with e | target
    · rw [hnext] at h
      cases h
    · -- the position is still zero, and so the rest is read in the same way
      rw [hnext] at h
      obtain ⟨rfl, hany⟩ := ih h
      refine ⟨rfl, fun offset' stop' => ?_⟩
      rw [gather, if_neg hzero, hpiece, hnone]
      simp only [bind, Except.bind, ByteArray.append_empty, hnext]
      split
      · exact hany offset' stop'
      · rfl

/-- A read that succeeds is, at any place in between, the two reads up to there and from there. -/
theorem readRange_split {bytes : ByteArray}
    (h : readRange layout store start total offset length = .ok bytes) {middle : Nat}
    (hmiddle : offset ≤ middle) (hend : middle ≤ min (offset + length) total) :
    ∃ front back, readRange layout store start total offset (middle - offset) = .ok front ∧
      readRange layout store start total middle (min (offset + length) total - middle)
        = .ok back ∧
      front ++ back = bytes := by
  rcases Nat.eq_zero_or_pos layout.payloadSize with hnone | hpos
  · -- none of the reads brings anything
    have hempty : bytes = .empty ∧ ∀ offset' length',
        (offset < min (offset + length) total ∨ total ≤ offset' ∨ length' = 0) →
        readRange layout store start total offset' length' = .ok .empty := by
      unfold readRange at h ⊢
      split at h
      · exact ⟨(Except.ok.inj h).symm, fun _ _ hor => if_pos (by omega)⟩
      · dsimp only at h ⊢
        rw [visitsFor, if_pos hnone] at h
        obtain ⟨rfl, hany⟩ := gather_of_no_payload hnone (by omega) h
        refine ⟨rfl, fun _ _ _ => ?_⟩
        rw [visitsFor, if_pos hnone, hany, ite_self]
    obtain ⟨rfl, hany⟩ := hempty
    exact ⟨_, _, hany _ _ (by omega), hany _ _ (by omega), ByteArray.append_empty⟩
  · have hcount : blocksFor layout middle ≤ blocksFor layout (min (offset + length) total) :=
      Nat.div_le_div_right (by omega)
    obtain ⟨hreadable, rfl⟩ := (readRange_eq_ok_iff hpos _ rfl bytes).mp h
    refine ⟨_, _, (readRange_eq_ok_iff hpos middle (by omega) _).mpr ⟨fun hlt => ?_, rfl⟩,
      (readRange_eq_ok_iff hpos (min (offset + length) total) (by omega) _).mpr
        ⟨fun hlt => ?_, rfl⟩, ?_⟩
    · exact (hreadable (by omega)).mono (Nat.le_refl _) hend hcount
    · exact (hreadable (by omega)).mono hmiddle (Nat.le_refl _) (Nat.le_refl _)
    · rw [extract_joined_walk hcount (blocksFor_bounds hpos middle).1,
        ByteArray.extract_append_extract, Nat.min_eq_left hmiddle, Nat.max_eq_right hend]

/-- **A read is a slice.** Let `stop` be where the read ends, by what is asked for and by the
recorded size, and let the chain be the blocks that the first `stop` bytes need, as far as links
lead to them. Nothing is read where `stop` is not behind `offset`. Otherwise, if all of these blocks
are in the store and the links among them stay in the data region, the read brings the bytes from
`offset` to `stop` of the joined payloads, fewer only where the chain ends before. It fails for a
bad link only if that is the first one among these. And whenever a read succeeds, the reads up to
and from a place in between succeed as well and bring the same bytes. Blocks that are no larger than
a link hold no bytes, and no number of them is what `stop` bytes need. -/
theorem readRange_slices (layout : Layout) (store : σ) (start total offset length : Nat) {stop : Nat}
    {chain : List Nat} (hstop : stop = min (offset + length) total)
    (hchain : chain = walk layout (held store) (blocksFor layout stop) start) :
    (total ≤ offset ∨ length = 0 →
      readRange layout store start total offset length = .ok ByteArray.empty) ∧
    (Layout.linkSize < layout.blockSize →
      ((∀ a ∈ chain, a + layout.blockSize ≤ reach store) → (∀ a ∈ chain.tail, layout.InData a) →
        readRange layout store start total offset length
          = .ok ((joined layout (held store) chain).extract offset stop) ∧
        (stop ≤ (joined layout (held store) chain).size ∨
          (chain.getLast?.map (target layout (held store))).getD start = 0)) ∧
      ∀ x, readRange layout store start total offset length = .error (.invalidAddress x) →
        chain.tail.find? (fun a => ¬ layout.InData a) = some x) ∧
    ∀ bytes middle, readRange layout store start total offset length = .ok bytes →
      offset ≤ middle → middle ≤ stop →
      ∃ front back, readRange layout store start total offset (middle - offset) = .ok front ∧
        readRange layout store start total middle (stop - middle) = .ok back ∧
        front ++ back = bytes := by
  subst hchain
  refine ⟨fun hnone => if_pos hnone, fun hlink => ?slice, ?split⟩
  case slice =>
    have hpos : 0 < layout.payloadSize := Nat.sub_pos_of_lt hlink
    have hbounds := blocksFor_bounds hpos stop
    refine ⟨fun hinside hdata => ⟨?_, ?_⟩, fun x herror => ?_⟩
    · refine (readRange_eq_ok_iff hpos stop hstop _).mpr ⟨fun _ => ?_, rfl⟩
      exact readable_of_inside hlink.le (by omega) hinside hdata
    · rw [size_joined, capacity]
      rcases Nat.lt_or_ge (walk layout (held store) (blocksFor layout stop) start).length
        (blocksFor layout stop) with hshort | hfull
      · exact .inr (ends_of_walk_lt hshort)
      · exact .inl (hbounds.1.trans (Nat.mul_le_mul_right _ hfull))
    · unfold readRange at herror
      split at herror
      · cases herror
      · dsimp only at herror
        rw [← hstop, visitsFor, if_neg (Nat.ne_of_gt hpos)] at herror
        exact find_of_gather_error hpos (by omega) (by omega) (by omega) herror
  case split =>
    subst hstop
    exact fun bytes middle h hmiddle hend => readRange_split h hmiddle hend

/-- The layout of a volume with blocks of 8 bytes, as few as there can be. -/
def narrow : Layout where
  blockSize := 8
  blockCount := 4163
  superblockAddress := 32768
  bitmapAddress := 32784
  dataAddress := 32792

/-- The first three blocks of its data region. The first one leads to the third one, and that one to
a block of the reserved area. -/
def astrayBlocks : ByteArray :=
  ⟨#[0, 0, 0x10, 0x05, 1, 2, 3, 4] ++ #[0, 0, 0, 0, 0, 0, 0, 0] ++ #[0, 0, 0, 9, 5, 6, 7, 8]⟩

/-- A volume that is zero but for these blocks. -/
def astray : Memory :=
  ⟨Bytes.overlay (Bytes.zeros 33304) 32792 astrayBlocks⟩

theorem held_astray : held astray = Content.put (fun _ => 0) 32792 astrayBlocks := by
  funext i
  have hget : held astray i = Bytes.get astray.bytes i := rfl
  have hstart : 32792 ≤ (Bytes.zeros 33304).size := by
    rw [Bytes.size_zeros]
    decide
  rw [hget, astray, Bytes.get_overlay _ hstart, Bytes.get_zeros]
  rfl

theorem reach_astray : reach astray = 33304 := by
  have hsize : reach astray = (Bytes.overlay (Bytes.zeros 33304) 32792 astrayBlocks).size := rfl
  have hfits : 32792 + astrayBlocks.size ≤ (Bytes.zeros 33304).size := by
    rw [Bytes.size_zeros]
    decide
  rw [hsize, Bytes.size_overlay hfits, Bytes.size_zeros]

/-- Two blocks of a chain that leads astray behind them are read, at once and in two parts; one
byte more, and the bad link is told. -/
theorem readRange_slices_astray :
    Layout.ofSuperblock ⟨8, 4163, 0⟩ 8 = .ok narrow ∧
    readRange narrow astray 32792 100 2 6 = .ok [3, 4, 5, 6, 7, 8].toByteArray ∧
    (∃ front back, readRange narrow astray 32792 100 2 3 = .ok front ∧
      readRange narrow astray 32792 100 5 3 = .ok back ∧
      front ++ back = [3, 4, 5, 6, 7, 8].toByteArray) ∧
    readRange narrow astray 32792 100 2 7 = .error (.invalidAddress 72) := by
  have hwalk : [32792, 32808] = walk narrow (held astray) (blocksFor narrow 8) 32792 := by
    rw [held_astray]
    decide +kernel
  obtain ⟨-, hslice, hsplit⟩ := readRange_slices narrow astray 32792 100 2 6 rfl hwalk
  have hinside : ∀ a ∈ [32792, 32808], a + narrow.blockSize ≤ reach astray := by
    rw [reach_astray]
    decide
  have hread := ((hslice (by decide)).1 hinside (by decide)).1
  have hbytes : (joined narrow (held astray) [32792, 32808]).extract 2 (min (2 + 6) 100)
      = [3, 4, 5, 6, 7, 8].toByteArray := by
    rw [held_astray]
    decide +kernel
  rw [hbytes] at hread
  have hwalk' : walk narrow (held astray) (blocksFor narrow 9) 32792 = [32792, 32808, 72] := by
    rw [held_astray]
    decide +kernel
  have hrefused : readRange narrow astray 32792 100 2 7 = .error (.invalidAddress 72) := by
    refine readRange_error_of_find (by decide) (show 9 = min (2 + 7) 100 from rfl) (by decide) ?_ ?_
    · rw [hwalk', reach_astray]
      decide
    · rw [hwalk']
      decide
  exact ⟨by decide, hread, hsplit _ 5 hread (by decide) (by decide), hrefused⟩

end Chain

end ChainFs
