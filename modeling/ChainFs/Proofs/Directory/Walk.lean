import ChainFs.Directory.Basic
import ChainFs.Proofs.Chain.Payload
import ChainFs.Proofs.Directory.Slots

/-!
# Walks through directories

A walk meets the nodes of a directory block by block and slot by slot, and nothing else.

A cursor rests between two records with a budget of links. What it will still meet is determined by
the chain it is in, and `Cursor.Ahead` says this for a cursor at any place: every step takes one
node from those ahead, so a walk is an induction on them and not on the blocks. That the budget is
never used up is part of it, because a chain has no more blocks than the bitmap has bits.

* `Directory.entries` — the nodes in the blocks of a chain, in their order;
* `Cursor.Ahead` — a walk that rests somewhere, with the nodes that lie ahead of it and the place
  where it ends. `Cursor.Ahead.next_spec` is one step of it, `Cursor.Ahead.seek_eq` and
  `Cursor.Ahead.drain_eq` are what a whole walk comes to;
* `Directory.find_eq`, `Directory.nodes_eq`, `Directory.liveSize_eq`, `Directory.tailFor_eq` — the
  questions asked of a directory, answered from its entries.
-/

namespace ChainFs

open Store Bitmap

namespace Directory

/-- The node in a slot of the block at `a`, if it holds one. -/
def slotNode? (a : Nat) (slot : Nat × Slot) : Option Node :=
  slot.2.record?.map fun record => ⟨record, some (a + slot.1)⟩

/-- The nodes in the block at `a` from `offset` on. -/
def nodesFrom (layout : Layout) (m : Content) (a offset : Nat) : List Node :=
  (slots layout.blockSize (m.window a layout.blockSize) offset).filterMap (slotNode? a)

/-- The nodes in the blocks of a list, in their order. -/
def entries (layout : Layout) (m : Content) (chain : List Nat) : List Node :=
  chain.flatMap (nodesFrom layout m · Cursor.firstRecord)

/-- Where the free rest begins of the block at `a`, behind its records from `offset` on. -/
def vacantIn (layout : Layout) (m : Content) (a offset : Nat) : Nat :=
  vacantFrom layout.blockSize (m.window a layout.blockSize) offset

/-- The block in which a walk ends that has come to `offset` of the block at `a` and has the blocks
`rest` before it, and the place of the free rest of that block. -/
def tailFrom (layout : Layout) (m : Content) : (a offset : Nat) → (rest : List Nat) → Nat × Nat
  | a, offset, [] => (a, vacantIn layout m a offset)
  | _, _, b :: rest => tailFrom layout m b Cursor.firstRecord rest

/-- How many bytes the records of nodes take together. -/
def extent (nodes : List Node) : Nat :=
  (nodes.map (·.record.encodedSize)).sum

@[simp] theorem extent_cons (node : Node) (nodes : List Node) :
    extent (node :: nodes) = node.record.encodedSize + extent nodes := by
  rw [extent, List.map_cons, List.sum_cons, extent]

@[simp] theorem extent_append (nodes nodes' : List Node) :
    extent (nodes ++ nodes') = extent nodes + extent nodes' := by
  rw [extent, List.map_append, List.sum_append, extent, extent]

@[simp] theorem entries_nil (layout : Layout) (m : Content) : entries layout m [] = [] :=
  rfl

@[simp] theorem entries_cons (layout : Layout) (m : Content) (a : Nat) (chain : List Nat) :
    entries layout m (a :: chain)
      = nodesFrom layout m a Cursor.firstRecord ++ entries layout m chain :=
  List.flatMap_cons

@[simp] theorem entries_append (layout : Layout) (m : Content) (chain chain' : List Nat) :
    entries layout m (chain ++ chain') = entries layout m chain ++ entries layout m chain' :=
  List.flatMap_append

/-- A walk along a whole chain ends in its last block. -/
theorem tailFrom_start (layout : Layout) (m : Content) (a : Nat) (rest : List Nat) {last : Nat}
    (hlast : (a :: rest).getLast? = some last) :
    tailFrom layout m a Cursor.firstRecord rest
      = (last, vacantIn layout m last Cursor.firstRecord) := by
  induction rest generalizing a with
  | nil =>
    obtain rfl : a = last := Option.some.inj hlast
    rfl
  | cons b rest ih =>
    rw [tailFrom]
    exact ih b (by rwa [List.getLast?_cons_cons] at hlast)

end Directory

namespace Cursor

open Directory

variable {layout : Layout} {m : Content}

/-- The first record of a block that stands for an entry is the first node there is. -/
theorem firstLive_spec (blockSize : Nat) (block : ByteArray) (a offset : Nat) :
    (firstLive blockSize block offset = (vacantFrom blockSize block offset, none) ∧
      (slots blockSize block offset).filterMap (slotNode? a) = []) ∨
    ∃ found record, firstLive blockSize block offset = (found, some (record, record.encodedSize)) ∧
      (slots blockSize block offset).filterMap (slotNode? a) = ⟨record, some (a + found)⟩ ::
        (slots blockSize block (found + record.encodedSize)).filterMap (slotNode? a) ∧
      vacantFrom blockSize block (found + record.encodedSize)
        = vacantFrom blockSize block offset := by
  induction offset using slots_induction blockSize block with
  | vacant offset hlength =>
    obtain ⟨hslots, hvacant⟩ := slots_vacant hlength
    have hslot := Slot.vacant_of_length? hlength
    left
    rw [hslots, hvacant, firstLive]
    split
    · exact ⟨rfl, rfl⟩
    all_goals simp_all
  | step offset length hlength ih =>
    obtain ⟨hslots, hvacant⟩ := slots_step hlength
    rw [hslots, hvacant, firstLive]
    split
    · rename_i hslot
      rw [hslot] at hlength
      cases hlength
    · rename_i record length' hslot
      have hsize := (Slot.length_of_record hslot).1
      rw [hslot] at hlength ⊢
      obtain rfl : length' = length := Option.some.inj hlength
      subst hsize
      by_cases hzero : record.address = 0
      · -- a record of no block is passed over
        rw [if_pos hzero]
        have hnone : slotNode? a (offset, .record record record.encodedSize) = none := by
          simp [slotNode?, Slot.record?, hzero]
        rwa [List.filterMap_cons_none hnone]
      · rw [if_neg hzero]
        have hsome : slotNode? a (offset, .record record record.encodedSize)
            = some ⟨record, some (a + offset)⟩ := by
          simp [slotNode?, Slot.record?, hzero]
        rw [List.filterMap_cons_some hsome]
        exact .inr ⟨offset, record, rfl, rfl, rfl⟩
    · -- so is what is no record
      rename_i code length' hslot
      rw [hslot] at hlength ⊢
      obtain rfl : length' = length := Option.some.inj hlength
      rwa [List.filterMap_cons_none rfl]
    · rename_i length' hslot
      rw [hslot] at hlength ⊢
      obtain rfl : length' = length := Option.some.inj hlength
      rwa [List.filterMap_cons_none rfl]

variable {σ : Type} [Store σ] [Faithful σ] {IsSize : Nat → Prop} [Layout.Roomy IsSize]

/-- A walk that rests at `cursor`, in the first block of a chain that goes on with `rest`. It has
the nodes `ahead` before it and ends at `tail`. -/
structure Ahead (layout : Layout) (m : Content) (cursor : Cursor) (rest : List Nat)
    (ahead : List Node) (tail : Cursor) : Prop where
  linked : Chain.Linked layout m (cursor.block :: rest)
  covered : ∀ b ∈ cursor.block :: rest, b ∈ layout.covered
  budget : rest.length ≤ cursor.budget
  running : cursor.finished = false
  ahead_eq : ahead = nodesFrom layout m cursor.block cursor.offset ++ entries layout m rest
  tail_eq : tail = ⟨(tailFrom layout m cursor.block cursor.offset rest).1,
    (tailFrom layout m cursor.block cursor.offset rest).2, cursor.liveSize + extent ahead,
    cursor.budget - rest.length, true⟩

namespace Ahead

variable {store : σ} {cursor tail : Cursor} {rest : List Nat} {ahead : List Node}

omit [Layout.Roomy IsSize] in
/-- A step of a walk in a block that has a node from the cursor on. -/
theorem next_live (h : Ahead layout (content store) cursor rest ahead tail)
    (regular : layout.Arranged IsSize) (hsize : layout.endAddress ≤ Store.size store) {found : Nat}
    {record : Record}
    (hlive : firstLive layout.blockSize ((content store).window cursor.block layout.blockSize)
      cursor.offset = (found, some (record, record.encodedSize)))
    (hnodes : nodesFrom layout (content store) cursor.block cursor.offset
      = ⟨record, some (cursor.block + found)⟩ ::
        nodesFrom layout (content store) cursor.block (found + record.encodedSize))
    (hvacant : vacantIn layout (content store) cursor.block (found + record.encodedSize)
      = vacantIn layout (content store) cursor.block cursor.offset) :
    ∃ node more after, ahead = node :: more ∧
      cursor.next layout store = (after, some (.ok node)) ∧
      Ahead layout (content store) after rest more tail := by
  obtain ⟨block, offset, liveSize, budget, finished⟩ := cursor
  obtain ⟨hlinked, hcovered, hbudget, hrunning, rfl, rfl⟩ := h
  obtain rfl : finished = false := hrunning
  dsimp only at *
  have hend := regular.end_of_mem (hcovered block (by simp))
  refine ⟨⟨record, some (block + found)⟩,
    nodesFrom layout (content store) block (found + record.encodedSize)
      ++ entries layout (content store) rest,
    ⟨block, found + record.encodedSize, liveSize + record.encodedSize, budget, false⟩, ?_, ?_, ?_⟩
  · rw [hnodes, List.cons_append]
  · rw [next, if_neg Bool.false_ne_true]
    dsimp only
    unfold nextFrom
    rw [read_eq (by omega)]
    dsimp only
    rw [hlive]
  · refine ⟨hlinked, hcovered, hbudget, rfl, rfl, ?_⟩
    -- the walk ends where it would have ended
    have htail : tailFrom layout (content store) block (found + record.encodedSize) rest
        = tailFrom layout (content store) block offset rest := by
      cases rest with
      | nil => rw [tailFrom, tailFrom, hvacant]
      | cons b rest => rfl
    rw [htail, hnodes, List.cons_append, extent_cons, Nat.add_assoc]

/-- A step of a walk in the last block, with no node from the cursor on, comes to the end. -/
theorem next_end (h : Ahead layout (content store) cursor [] ahead tail)
    (regular : layout.Arranged IsSize) (hsize : layout.endAddress ≤ Store.size store)
    (hnone : firstLive layout.blockSize ((content store).window cursor.block layout.blockSize)
      cursor.offset = (vacantIn layout (content store) cursor.block cursor.offset, none))
    (hnodes : nodesFrom layout (content store) cursor.block cursor.offset = []) :
    ahead = [] ∧ cursor.next layout store = (tail, none) := by
  obtain ⟨block, offset, liveSize, budget, finished⟩ := cursor
  obtain ⟨hlinked, hcovered, hbudget, hrunning, rfl, rfl⟩ := h
  obtain rfl : finished = false := hrunning
  dsimp only at *
  have hend := regular.end_of_mem (hcovered block (by simp))
  have htarget : Chain.target layout (content store) block = 0 := hlinked 0 block rfl
  rw [hnodes, entries_nil, List.append_nil]
  refine ⟨rfl, ?_⟩
  rw [next, if_neg Bool.false_ne_true]
  dsimp only
  unfold nextFrom
  rw [read_eq (by omega)]
  dsimp only
  rw [hnone, Chain.next_eq regular hsize (hcovered block (by simp)) (.inl htarget), htarget]
  rfl

/-- A step of a walk in a block with no node from the cursor on is a step in the next block. -/
theorem next_over {b : Nat} (h : Ahead layout (content store) cursor (b :: rest) ahead tail)
    (regular : layout.Arranged IsSize) (hsize : layout.endAddress ≤ Store.size store) {found : Nat}
    (hnone : firstLive layout.blockSize ((content store).window cursor.block layout.blockSize)
      cursor.offset = (found, none))
    (hnodes : nodesFrom layout (content store) cursor.block cursor.offset = []) :
    ∃ after, cursor.next layout store = after.next layout store ∧
      Ahead layout (content store) after rest ahead tail := by
  obtain ⟨block, offset, liveSize, budget, finished⟩ := cursor
  obtain ⟨hlinked, hcovered, hbudget, hrunning, rfl, rfl⟩ := h
  obtain rfl : finished = false := hrunning
  dsimp only at *
  obtain ⟨budget, rfl⟩ : ∃ n, budget = n + 1 :=
    Nat.exists_eq_add_of_le' (Nat.le_trans (Nat.succ_le_succ (Nat.zero_le _)) hbudget)
  have hend := regular.end_of_mem (hcovered block (by simp))
  have htarget : Chain.target layout (content store) block = b := hlinked 0 block rfl
  have hb := hcovered b (by simp)
  have hpos := regular.pos_of_mem hb
  refine ⟨⟨b, firstRecord, liveSize, budget, false⟩, ?_, hlinked.tail,
    fun c hc => hcovered c (List.mem_cons_of_mem _ hc), Nat.le_of_succ_le_succ hbudget, rfl, ?_, ?_⟩
  · rw [next, if_neg Bool.false_ne_true, next, if_neg Bool.false_ne_true]
    dsimp only
    conv_lhs => unfold nextFrom
    rw [read_eq (by omega)]
    dsimp only
    rw [hnone, Chain.next_eq regular hsize (hcovered block (by simp))
      (.inr (htarget ▸ regular.inData_of_mem hb)), htarget]
    dsimp only
    rw [if_neg (by omega)]
  · rw [hnodes, entries_cons, List.nil_append]
  · rw [List.length_cons, Nat.succ_sub_succ]
    rfl

/-- A step of a walk comes to the first node that lies ahead, or to the end if there is none. -/
theorem next_spec (h : Ahead layout (content store) cursor rest ahead tail)
    (regular : layout.Arranged IsSize) (hsize : layout.endAddress ≤ Store.size store) :
    (ahead = [] ∧ cursor.next layout store = (tail, none)) ∨
    ∃ node more after rest', ahead = node :: more ∧
      cursor.next layout store = (after, some (.ok node)) ∧
      Ahead layout (content store) after rest' more tail := by
  induction rest generalizing cursor with
  | nil =>
    rcases firstLive_spec layout.blockSize
        ((content store).window cursor.block layout.blockSize) cursor.block cursor.offset with
      ⟨hnone, hnodes⟩ | ⟨found, record, hlive, hnodes, hvacant⟩
    · exact .inl (h.next_end regular hsize hnone hnodes)
    · obtain ⟨node, more, after, hahead, hnext, hafter⟩ :=
        h.next_live regular hsize hlive hnodes hvacant
      exact .inr ⟨node, more, after, [], hahead, hnext, hafter⟩
  | cons b rest ih =>
    rcases firstLive_spec layout.blockSize
        ((content store).window cursor.block layout.blockSize) cursor.block cursor.offset with
      ⟨hnone, hnodes⟩ | ⟨found, record, hlive, hnodes, hvacant⟩
    · -- the block is used up, and the step goes on in the next one
      obtain ⟨after, hstep, hafter⟩ := h.next_over regular hsize hnone hnodes
      rw [hstep]
      exact ih hafter
    · obtain ⟨node, more, after, hahead, hnext, hafter⟩ :=
        h.next_live regular hsize hlive hnodes hvacant
      exact .inr ⟨node, more, after, b :: rest, hahead, hnext, hafter⟩

/-- A search comes to the first node ahead that is wanted, or to the end. -/
theorem seek_eq (h : Ahead layout (content store) cursor rest ahead tail)
    (regular : layout.Arranged IsSize) (hsize : layout.endAddress ≤ Store.size store)
    (wanted : Node → Bool) :
    (∃ node after, ahead.find? wanted = some node ∧
      cursor.seek layout store wanted = .ok (after, some node)) ∨
    ahead.find? wanted = none ∧ cursor.seek layout store wanted = .ok (tail, none) := by
  induction ahead generalizing cursor rest with
  | nil =>
    rcases h.next_spec regular hsize with ⟨-, hnext⟩ | ⟨node, more, after, rest', hahead, -⟩
    · right
      rw [seek]
      split
      all_goals simp_all
    · cases hahead
  | cons node ahead ih =>
    rcases h.next_spec regular hsize with
      ⟨hahead, -⟩ | ⟨node', more, after, rest', hahead, hnext, h'⟩
    · cases hahead
    · obtain ⟨rfl, rfl⟩ := List.cons.inj hahead
      by_cases hwanted : wanted node = true
      · left
        refine ⟨node, after, List.find?_cons_of_pos hwanted, ?_⟩
        rw [seek]
        split
        all_goals simp_all
      · rw [List.find?_cons_of_neg hwanted]
        have hseek : cursor.seek layout store wanted = after.seek layout store wanted := by
          rw [seek]
          split
          all_goals simp_all
        rw [hseek]
        exact ih h'

/-- A walk to the end meets all nodes ahead. -/
theorem drain_eq (h : Ahead layout (content store) cursor rest ahead tail)
    (regular : layout.Arranged IsSize) (hsize : layout.endAddress ≤ Store.size store)
    (seen : Array Node) :
    cursor.drain layout store seen = .ok (tail, seen ++ ahead.toArray) := by
  induction ahead generalizing cursor rest seen with
  | nil =>
    rcases h.next_spec regular hsize with ⟨-, hnext⟩ | ⟨node, more, after, rest', hahead, -⟩
    · rw [drain]
      split
      all_goals simp_all
    · cases hahead
  | cons node ahead ih =>
    rcases h.next_spec regular hsize with
      ⟨hahead, -⟩ | ⟨node', more, after, rest', hahead, hnext, h'⟩
    · cases hahead
    · obtain ⟨rfl, rfl⟩ := List.cons.inj hahead
      have hdrain : cursor.drain layout store seen
          = after.drain layout store (seen.push node) := by
        rw [drain]
        split
        all_goals simp_all
      rw [hdrain, ih h']
      simp

end Ahead

end Cursor

/-! ## The questions asked of a directory -/

namespace Directory

variable {layout : Layout} {IsSize : Nat → Prop} [Layout.Roomy IsSize]
variable {σ : Type} [Store σ] [Faithful σ] {store : σ} {chain : List Nat} {a : Nat}

/-- Where a walk through a whole directory ends whose last block is `last`. -/
def tail (layout : Layout) (m : Content) (chain : List Nat) (last : Nat) : Cursor where
  block := last
  offset := vacantIn layout m last Cursor.firstRecord
  liveSize := extent (entries layout m chain)
  budget := layout.bitmapBits - chain.tail.length
  finished := true

omit [Layout.Roomy IsSize] in
/-- A walk through a directory has all its entries ahead. -/
theorem start_ahead (regular : layout.Arranged IsSize)
    (intact : Chain.Intact layout (content store) chain) (ha : chain[0]? = some a) {last : Nat}
    (hlast : chain.getLast? = some last) :
    (Cursor.start layout a).Ahead layout (content store) chain.tail
      (entries layout (content store) chain) (tail layout (content store) chain last) := by
  obtain ⟨rest, rfl⟩ : ∃ rest, chain = a :: rest := by
    obtain ⟨b, rest, rfl⟩ := List.exists_cons_of_ne_nil intact.ne_nil
    obtain rfl : b = a := Option.some.inj ha
    exact ⟨rest, rfl⟩
  have hlength := intact.length_le regular
  rw [List.length_cons] at hlength
  refine ⟨intact.linked, fun b hb => intact.covered hb, Nat.le_of_succ_le hlength, rfl,
    entries_cons .., ?_⟩
  have htail := tailFrom_start layout (content store) a rest hlast
  rw [Cursor.start, List.tail_cons, htail, Nat.zero_add]
  rfl

variable (regular : layout.Arranged IsSize) (hsize : layout.endAddress ≤ Store.size store)
  (intact : Chain.Intact layout (content store) chain) (ha : chain[0]? = some a)
include regular hsize intact ha

theorem find_eq (name : String) :
    find layout store a name
      = .ok ((entries layout (content store) chain).find? (·.record.name = name)) := by
  obtain ⟨last, hlast⟩ := intact.exists_last
  rcases (start_ahead regular intact ha hlast).seek_eq regular hsize (·.record.name = name) with
    ⟨node, after, hfind, hseek⟩ | ⟨hfind, hseek⟩
  · rw [find, hseek, hfind]
    rfl
  · rw [find, hseek, hfind]
    rfl

theorem nodes_eq :
    nodes layout store a = .ok (entries layout (content store) chain).toArray := by
  obtain ⟨last, hlast⟩ := intact.exists_last
  rw [nodes, (start_ahead regular intact ha hlast).drain_eq regular hsize #[], Array.empty_append]
  rfl

theorem liveSize_eq :
    liveSize layout store a = .ok (extent (entries layout (content store) chain)) := by
  obtain ⟨last, hlast⟩ := intact.exists_last
  rcases (start_ahead regular intact ha hlast).seek_eq regular hsize fun _ => false with
    ⟨node, after, hfind, -⟩ | ⟨-, hseek⟩
  · exact absurd (List.find?_some hfind) Bool.false_ne_true
  · rw [liveSize, hseek]
    rfl

/-- The end of a directory lies behind the last record of its last block. -/
theorem tailFor_eq {last : Nat} (hlast : chain.getLast? = some last) {name : String}
    (hnew : (entries layout (content store) chain).find? (·.record.name = name) = none) :
    tailFor layout store a name = .ok (tail layout (content store) chain last) := by
  rcases (start_ahead regular intact ha hlast).seek_eq regular hsize (·.record.name = name) with
    ⟨node, after, hfind, hseek⟩ | ⟨hfind, hseek⟩
  · rw [hnew] at hfind
    cases hfind
  · rw [tailFor, hseek]
    rfl

/-- A name that is taken is refused. -/
theorem tailFor_error {name : String}
    (hold : (entries layout (content store) chain).find? (·.record.name = name) ≠ none) :
    tailFor layout store a name = .error (.alreadyExists name) := by
  obtain ⟨last, hlast⟩ := intact.exists_last
  rcases (start_ahead regular intact ha hlast).seek_eq regular hsize (·.record.name = name) with
    ⟨node, after, hfind, hseek⟩ | ⟨hfind, hseek⟩
  · rw [tailFor, hseek]
    rfl
  · exact absurd hfind hold

end Directory

end ChainFs
