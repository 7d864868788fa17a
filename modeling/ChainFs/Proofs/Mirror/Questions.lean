import ChainFs.Proofs.Mirror.Basic
import ChainFs.Volume

/-!
# Questions to a file and to memory

Whatever a volume holds, and wherever its links and records lead, a question is answered the same on
a file and on the memory it mirrors: it reads whole blocks, numbers and pieces that are not empty.

* `Chain.readRange_same` — reading a chain;
* `Cursor.nextFrom_same`, `Cursor.seek_same`, `Cursor.drain_same` — walking through a directory;
* `Volume.scan_same`, `Volume.lookup_same`, `Volume.list_same`, `Volume.read_same`,
  `Volume.usage_same` — the questions of a volume.

Nothing is known of the links and the records here, so an access may well be refused. The statement
to be carried along is therefore not that reads succeed but that both sides come to the same, and a
walk takes the same steps up to the place where both of them fail.
-/

namespace ChainFs

open Store

variable {size : Nat} {memory : Memory} {file : File} {layout : Layout}

/-- Numbers of at least one byte are read alike. -/
theorem Store.Mirrors.readNumber_same (mirrors : Mirrors size memory file) {width : Nat}
    (hwidth : 0 < width) (offset : Nat) :
    SameAnswer (readNumber width memory offset) (readNumber width file offset) :=
  .bind (mirrors.read_same hwidth) fun _ _ => .refl _

/-! ## Chains -/

namespace Chain

variable (mirrors : Mirrors size memory file)
include mirrors

/-- A link is followed alike, and a bad one is refused with the same address. -/
theorem next_same (layout : Layout) (a : Nat) :
    SameAnswer (next layout memory a) (next layout file a) :=
  .bind (mirrors.readNumber_same (by decide) a) fun _ _ => .refl _

/-- A piece that is not empty. -/
theorem piece_same (hpayload : 0 < layout.payloadSize) {offset stop position : Nat}
    (hoffset : offset < stop) (hposition : position < stop) (a : Nat) :
    SameAnswer (piece layout memory offset stop a position)
      (piece layout file offset stop a position) := by
  unfold piece
  split
  · exact mirrors.read_same (by omega)
  · exact .refl _

/-- **The loop that reads a chain.** As long as it has not reached its goal, the piece it asks for
next is not empty. -/
theorem gather_same (hpayload : 0 < layout.payloadSize) {offset stop : Nat}
    (hoffset : offset < stop) (blocks : Nat) {position : Nat} (hposition : position < stop)
    (a : Nat) (out : ByteArray) :
    SameAnswer (gather layout memory offset stop blocks a position out)
      (gather layout file offset stop blocks a position out) := by
  induction blocks generalizing a position out with
  | zero => exact .refl _
  | succ blocks ih =>
    rw [gather, gather]
    split
    · exact .refl _
    refine .bind (piece_same mirrors hpayload hoffset hposition a) fun bytes _ => ?_
    dsimp only
    split
    · rename_i hlt
      exact .bind (next_same mirrors layout a) fun target _ => ih hlt target _
    · exact .refl _

/-- Reading a chain. An empty stretch is answered without an access, on both sides. -/
theorem readRange_same (hpayload : 0 < layout.payloadSize) (start total offset length : Nat) :
    SameAnswer (readRange layout memory start total offset length)
      (readRange layout file start total offset length) := by
  unfold readRange
  split
  · exact .refl _
  · exact gather_same mirrors hpayload (by omega) _ (by omega) start _

end Chain

/-! ## Directories -/

namespace Cursor

section Equations

variable {σ : Type} [Store σ] {store : σ}

/-- One turn of a search, with the step it takes in front. -/
theorem seek_eq (wanted : Node → Bool) (cursor : Cursor) :
    cursor.seek layout store wanted = match cursor.next layout store with
      | (cursor, none) => .ok (cursor, none)
      | (_, some (.error e)) => .error e
      | (cursor, some (.ok node)) =>
        if wanted node then .ok (cursor, some node) else cursor.seek layout store wanted := by
  rw [seek]
  split <;> simp only [*]

/-- One turn of a full walk, with the step it takes in front. -/
theorem drain_eq (seen : Array Node) (cursor : Cursor) :
    cursor.drain layout store seen = match cursor.next layout store with
      | (cursor, none) => .ok (cursor, seen)
      | (_, some (.error e)) => .error e
      | (cursor, some (.ok node)) => cursor.drain layout store (seen.push node) := by
  rw [drain]
  split <;> simp only [*]

end Equations

/-- How a step of a walk ends on both sides: with the same cursor, and it has found the same. -/
def SameStep (step step' : Cursor × Option (Except Error Node)) : Prop :=
  step'.1 = step.1 ∧ Option.Rel SameAnswer step.2 step'.2

namespace SameStep

variable {cursor : Cursor} {step' : Cursor × Option (Except Error Node)}

/-- Where one side is at the end, so is the other. -/
theorem of_none (h : SameStep (cursor, none) step') : step' = (cursor, none) := by
  obtain ⟨moved, found'⟩ := step'
  obtain ⟨rfl : moved = cursor, hfound⟩ := h
  cases hfound
  rfl

/-- Where one side finds a node, the other finds this node. -/
theorem of_node {node : Node} (h : SameStep (cursor, some (.ok node)) step') :
    step' = (cursor, some (.ok node)) := by
  obtain ⟨moved, found'⟩ := step'
  obtain ⟨rfl : moved = cursor, hfound⟩ := h
  rcases hfound with ⟨hsame⟩
  rw [hsame.of_ok rfl]

/-- Where one side fails, so does the other, and the failures differ at most in how an access
failed. -/
theorem of_error {e : Error} (h : SameStep (cursor, some (.error e)) step') :
    ∃ e', step' = (cursor, some (.error e')) ∧
      ∀ {β : Type}, SameAnswer (.error e : Except Error β) (.error e') := by
  obtain ⟨moved, found'⟩ := step'
  obtain ⟨rfl : moved = cursor, hfound⟩ := h
  rcases hfound with ⟨hsame⟩
  obtain ⟨e', rfl, herror⟩ := hsame.of_error rfl
  exact ⟨e', rfl, herror⟩

end SameStep

variable (mirrors : Mirrors size memory file) (hblock : 0 < layout.blockSize)
include mirrors hblock

/-- **One step of a walk**, by induction on the links that may still be followed. -/
theorem nextFrom_same (liveSize budget block offset : Nat) :
    SameStep (nextFrom layout memory liveSize budget block offset)
      (nextFrom layout file liveSize budget block offset) := by
  fun_induction nextFrom layout memory liveSize budget block offset with
  | case1 budget block offset e hread =>
    obtain ⟨e', hread', hsame⟩ := (mirrors.read_same hblock).of_error hread
    rw [nextFrom, hread']
    exact ⟨rfl, .some hsame⟩
  | case2 budget block _ bytes hread found record length hlive =>
    rw [nextFrom, (mirrors.read_same hblock).of_ok hread]
    simp only [hlive]
    exact ⟨rfl, .some (.refl _)⟩
  | case3 budget block _ bytes hread found hlive e hnext =>
    obtain ⟨e', hnext', hsame⟩ := (Chain.next_same mirrors layout block).of_error hnext
    rw [nextFrom, (mirrors.read_same hblock).of_ok hread]
    simp only [hlive, hnext']
    exact ⟨rfl, .some hsame⟩
  | case4 budget block _ bytes hread found hlive hnext =>
    rw [nextFrom, (mirrors.read_same hblock).of_ok hread]
    simp only [hlive, (Chain.next_same mirrors layout block).of_ok hnext, if_true]
    exact ⟨rfl, .none⟩
  | case5 block _ bytes hread found hlive target hnext htarget =>
    rw [nextFrom, (mirrors.read_same hblock).of_ok hread]
    simp only [hlive, (Chain.next_same mirrors layout block).of_ok hnext, if_neg htarget]
    exact ⟨rfl, .some (.refl _)⟩
  | case6 block offset bytes hread found hlive target hnext htarget budget ih =>
    have hstep : nextFrom layout file liveSize (budget + 1) block offset
        = nextFrom layout file liveSize budget target firstRecord := by
      rw [nextFrom, (mirrors.read_same hblock).of_ok hread]
      simp only [hlive, (Chain.next_same mirrors layout block).of_ok hnext, if_neg htarget]
    exact hstep ▸ ih

theorem next_same (cursor : Cursor) :
    SameStep (cursor.next layout memory) (cursor.next layout file) := by
  rw [next, next]
  split
  · exact ⟨rfl, .none⟩
  · exact nextFrom_same mirrors hblock ..

/-- A search ends alike: it rests at the same node, or meets the same failure. -/
theorem seek_same (wanted : Node → Bool) (cursor : Cursor) :
    SameAnswer (cursor.seek layout memory wanted) (cursor.seek layout file wanted) := by
  fun_induction cursor.seek layout memory wanted with
  | case1 cursor moved hstep =>
    have hstep' := (hstep ▸ next_same mirrors hblock cursor).of_none
    rw [seek_eq, hstep']
    exact .refl _
  | case2 cursor moved e hstep =>
    obtain ⟨e', hstep', hsame⟩ := (hstep ▸ next_same mirrors hblock cursor).of_error
    rw [seek_eq, hstep']
    exact hsame
  | case3 cursor moved node hstep hwanted =>
    have hstep' := (hstep ▸ next_same mirrors hblock cursor).of_node
    rw [seek_eq, hstep']
    exact .inl (if_pos hwanted)
  | case4 cursor moved node hstep hwanted ih =>
    have hstep' := (hstep ▸ next_same mirrors hblock cursor).of_node
    have hseek : cursor.seek layout file wanted = moved.seek layout file wanted := by
      rw [seek_eq, hstep']
      exact if_neg hwanted
    exact hseek ▸ ih

/-- A full walk has seen the same nodes. -/
theorem drain_same (seen : Array Node) (cursor : Cursor) :
    SameAnswer (cursor.drain layout memory seen) (cursor.drain layout file seen) := by
  fun_induction cursor.drain layout memory seen with
  | case1 seen cursor moved hstep =>
    have hstep' := (hstep ▸ next_same mirrors hblock cursor).of_none
    rw [drain_eq, hstep']
    exact .refl _
  | case2 seen cursor moved e hstep =>
    obtain ⟨e', hstep', hsame⟩ := (hstep ▸ next_same mirrors hblock cursor).of_error
    rw [drain_eq, hstep']
    exact hsame
  | case3 seen cursor moved node hstep ih =>
    have hstep' := (hstep ▸ next_same mirrors hblock cursor).of_node
    have hdrain : cursor.drain layout file seen = moved.drain layout file (seen.push node) := by
      rw [drain_eq, hstep']
    exact hdrain ▸ ih

end Cursor

namespace Directory

variable (mirrors : Mirrors size memory file) (hblock : 0 < layout.blockSize)
include mirrors hblock

theorem find_same (address : Nat) (name : String) :
    SameAnswer (find layout memory address name) (find layout file address name) :=
  .bind (Cursor.seek_same mirrors hblock _ _) fun _ _ => .refl _

theorem nodes_same (address : Nat) :
    SameAnswer (nodes layout memory address) (nodes layout file address) :=
  .bind (Cursor.drain_same mirrors hblock _ _) fun _ _ => .refl _

theorem liveSize_same (address : Nat) :
    SameAnswer (liveSize layout memory address) (liveSize layout file address) :=
  .bind (Cursor.seek_same mirrors hblock _ _) fun _ _ => .refl _

/-- The place behind the last entry is found alike, and so is an entry that has the name already. -/
theorem tailFor_same (address : Nat) (name : String) :
    SameAnswer (tailFor layout memory address name) (tailFor layout file address name) :=
  .bind (Cursor.seek_same mirrors hblock _ _) fun _ _ => .refl _

end Directory

/-! ## The bitmap -/

namespace Bitmap

variable (mirrors : Mirrors size memory file) (hblock : 0 < layout.blockSize)
include mirrors hblock

/-- The search through the bitmap blocks that are left. -/
theorem nextFreeFrom_same (i left : Nat) :
    SameAnswer (nextFreeFrom layout memory i left) (nextFreeFrom layout file i left) := by
  induction left generalizing i with
  | zero => exact .refl _
  | succ left ih =>
    refine .bind (mirrors.read_same hblock) fun block _ => ?_
    split
    · exact ih (i + 1)
    · exact .refl _

theorem nextFree_same : SameAnswer (nextFree layout memory) (nextFree layout file) :=
  nextFreeFrom_same mirrors hblock 0 _

end Bitmap

/-! ## Volumes -/

namespace Volume

variable (mirrors : Mirrors size memory file)
include mirrors

theorem superblockAt_same {blockSize : Nat} (hblock : 0 < blockSize) (address : Nat) :
    SameAnswer (superblockAt memory address blockSize) (superblockAt file address blockSize) :=
  .bind (mirrors.read_same hblock) fun _ _ => .refl _

/-- A volume opens alike, with the same layout or the same fault of the image. -/
theorem load_same {blockSize : UInt32} (hblock : 0 < blockSize.toNat) :
    SameAnswer (load memory blockSize) (load file blockSize) := by
  unfold load
  rw [mirrors.size_eq]
  dsimp only
  split
  · exact .refl _
  · exact .bind (superblockAt_same mirrors hblock _) fun _ _ => .refl _

variable (hblock : 0 < layout.blockSize)
include hblock

/-- The way down along the names of a path. -/
theorem descend_same (node : Node) (names : List String) :
    SameAnswer (descend layout memory node names) (descend layout file node names) := by
  induction names generalizing node with
  | nil => exact .refl _
  | cons name rest ih =>
    rw [descend, descend]
    split
    · exact .refl _
    refine .bind (Directory.find_same mirrors hblock _ name) fun found _ => ?_
    cases found with
    | none => exact .refl _
    | some child => exact ih child

theorem scan_same (path : String) : SameAnswer (scan layout memory path) (scan layout file path) :=
  descend_same mirrors hblock _ _

theorem resolve_same (path : String) :
    SameAnswer (resolve layout memory path) (resolve layout file path) :=
  .bind (scan_same mirrors hblock path) fun _ _ => .refl _

theorem lookup_same (path : String) :
    SameAnswer (lookup layout memory path) (lookup layout file path) := by
  refine .bind (resolve_same mirrors hblock path) fun node _ => .bind ?_ fun _ _ => .refl _
  unfold nodeSize
  split
  · exact Directory.liveSize_same mirrors hblock _
  · exact .refl _

theorem list_same (path : String) :
    SameAnswer (list layout memory path) (list layout file path) := by
  refine .bind (resolve_same mirrors hblock path) fun node _ => ?_
  split
  · exact .refl _
  · exact Directory.nodes_same mirrors hblock _

/-- A file is read alike. -/
theorem read_same (hpayload : 0 < layout.payloadSize) (path : String) (offset length : Nat) :
    SameAnswer (Volume.read layout memory path offset length)
      (Volume.read layout file path offset length) := by
  refine .bind (resolve_same mirrors hblock path) fun node _ => ?_
  split
  · exact .refl _
  · exact Chain.readRange_same mirrors hpayload _ _ offset length

theorem usage_same : SameAnswer (usage layout memory) (usage layout file) :=
  .bind (superblockAt_same mirrors hblock _) fun _ _ => .refl _

end Volume

end ChainFs
