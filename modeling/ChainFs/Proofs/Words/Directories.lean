import ChainFs.Proofs.Volume.Edits
import ChainFs.Proofs.Words.Walks

/-!
# Directories on a machine

What is asked of a directory is a walk, and walks have been shown not to crash. A change of a
directory adds a few sums to a walk, of a place in a block and the length of a record, and the size
of the directory, which fits into 32 bits or is refused. The node that a walk finds has small
addresses, and so has the cursor that it ends with; these facts are what is handed on from one step
to the next.

* `Words.find`, `Words.nodes`, `Words.liveSize` — what is asked of a directory;
* `Words.updateNode`, `Words.create` — a new size and time for an entry, and a new entry;
* `Words.create_of` — a new entry does not crash, whatever the directory holds.
-/

namespace ChainFs.Words

variable {σ : Type} [Store σ]

/-! ## Questions -/

/-- The first entry with a name in the directory whose first block is at `address`. -/
def find (limits : Limits) (layout : Layout) (store : σ) (address : Nat) (name : String) :
    Checked (Option Node) := do
  let walk ← Walk.start limits layout address
  let (_, found) ← walk.seek layout store (·.record.name = name) (walkTurns limits layout)
  return found

/-- All entries of the directory whose first block is at `address`, in their order. -/
def nodes (limits : Limits) (layout : Layout) (store : σ) (address : Nat) :
    Checked (Array Node) := do
  let walk ← Walk.start limits layout address
  let (_, nodes) ← walk.drain layout store (walkTurns limits layout) #[]
  return nodes

/-- How many bytes the records of all entries take together. -/
def liveSize (limits : Limits) (layout : Layout) (store : σ) (address : Nat) : Checked Nat := do
  let walk ← Walk.start limits layout address
  let (walk, _) ← walk.seek layout store (fun _ => false) (walkTurns limits layout)
  return walk.cursor.liveSize

/-- The end of a directory that has no entry of this name yet. -/
def tailFor (limits : Limits) (layout : Layout) (store : σ) (address : Nat) (name : String) :
    Checked Cursor := do
  let walk ← Walk.start limits layout address
  match ← walk.seek layout store (·.record.name = name) (walkTurns limits layout) with
  | (_, some _) => refuse (.alreadyExists name)
  | (walk, none) => return walk.cursor

section

variable {layout : Layout} {store : σ} {address : Nat} {name : String}

/-- What a directory has under a name has small addresses. -/
theorem find_small (regular : layout.Regular) (haddress : address < 2 ^ 61) {node : Node}
    (h : Directory.find layout store address name = .ok (some node)) : node.Small := by
  obtain ⟨cursor, hseek⟩ := Directory.seek_of_find h
  exact (Cursor.seek_small regular (Cursor.small_start regular haddress) hseek).2 node rfl

/-- The end of a directory is at a small address. -/
theorem tailFor_small (regular : layout.Regular) (haddress : address < 2 ^ 61) {tail : Cursor}
    (h : Directory.tailFor layout store address name = .ok tail) : tail.Small layout :=
  (Cursor.seek_small regular (Cursor.small_start regular haddress)
    (Directory.seek_of_tailFor h)).1

variable (regular : layout.Regular) (haddress : address < 2 ^ 61)
include regular haddress

theorem seek_start_of (wanted : Node → Bool) :
    (Walk.of (.start layout address)).seek layout store wanted (walkTurns (.of layout) layout)
      = .of ((fun r => (Walk.of r.1, r.2))
          <$> (Cursor.start layout address).seek layout store wanted) :=
  Walk.seek_of regular (Cursor.small_start regular haddress) wanted (Walk.turnsFor_start address)

theorem find_of (name : String) :
    find (.of layout) layout store address name
      = .of (Directory.find layout store address name) := by
  rw [find, Walk.start_eq regular, Checked.ok_bind]
  exact Checked.map_bind_of (seek_start_of regular haddress _) fun _ _ => rfl

theorem nodes_of :
    nodes (.of layout) layout store address = .of (Directory.nodes layout store address) := by
  rw [nodes, Walk.start_eq regular, Checked.ok_bind]
  exact Checked.map_bind_of (Walk.drain_of regular (Cursor.small_start regular haddress) _
    (Walk.turnsFor_start address)) fun _ _ => rfl

theorem liveSize_of :
    liveSize (.of layout) layout store address = .of (Directory.liveSize layout store address) := by
  rw [liveSize, Walk.start_eq regular, Checked.ok_bind]
  exact Checked.map_bind_of (seek_start_of regular haddress _) fun _ _ => rfl

theorem tailFor_of (name : String) :
    tailFor (.of layout) layout store address name
      = .of (Directory.tailFor layout store address name) := by
  rw [tailFor, Walk.start_eq regular, Checked.ok_bind]
  refine Checked.map_bind_of (seek_start_of regular haddress _) fun result _ => ?_
  obtain ⟨cursor, _ | node⟩ := result <;> rfl

end

/-! ## Changes -/

/-- Rewrites size and mtime of the record at an address. -/
def updateRecord (address : Nat) (size : UInt32) (mtime : UInt64) : Changing σ Unit := do
  let sizeAddress ← check (add address Record.sizeOffset)
  writeNumber 4 sizeAddress size.toNat
  let mtimeAddress ← check (add address Record.mtimeOffset)
  writeNumber 8 mtimeAddress mtime.toNat

/-- Rewrites size and mtime of a node; the root has no record and stays as it is. -/
def updateNode (node : Node) (size : UInt32) (mtime : UInt64) : Changing σ Unit :=
  match node.recordAddress with
  | some address => updateRecord address size mtime
  | none => pure ()

/-- The bytes of a record. The block number is the address divided by the block size. -/
def encode (blockSize : Nat) (record : Record) : Checked ByteArray := do
  let _ ← mod record.address blockSize
  let _ ← div record.address blockSize
  Checked.of (record.encode blockSize)

/-- The place for a record of `length` bytes behind the end of a directory. -/
def placeFor (layout : Layout) (tail : Cursor) (length : Nat) : Changing σ Nat := do
  let stop ← check (add tail.offset length)
  if stop ≤ layout.blockSize then check (add tail.block tail.offset)
  else
    let added ← acquire layout
    link layout tail.block added
    check (add added Cursor.firstRecord)

/-- The size of a directory that gets a record of `length` bytes behind its end. -/
def grownSize (tail : Cursor) (length : Nat) : Checked UInt32 := do
  let size ← add tail.liveSize length
  if size < UInt32.size then return UInt32.ofNat size else refuse .fileTooLarge

/-- Takes the first block of a new entry and writes the entry's record behind the end of its
directory. -/
def append (layout : Layout) (tail : Cursor) (name : String) (kind : Kind) (mtime : UInt64) :
    Changing σ Node := do
  let address ← acquire layout
  let record : Record := { kind, address, size := 0, mtime, name }
  let bytes ← check (encode layout.blockSize record)
  let length ← check (add Record.headerSize name.utf8ByteSize)
  let recordAddress ← placeFor layout tail length
  write recordAddress bytes
  return ⟨record, some recordAddress⟩

/-- Creates an entry at the end of the directory `parent`. -/
def create (limits : Limits) (layout : Layout) (parent : Node) (name : String) (kind : Kind)
    (mtime : UInt64) : Changing σ Node := do
  check (.of (Directory.checkNew parent name))
  let tail ← ask (tailFor limits layout · parent.record.address name)
  let length ← check (add Record.headerSize name.utf8ByteSize)
  let size ← check (grownSize tail length)
  updateNode parent size mtime
  append layout tail name kind mtime

section

variable {layout : Layout} {node : Node} {tail : Cursor}

theorem updateNode_of (small : node.Small) (size : UInt32) (mtime : UInt64) :
    (updateNode node size mtime : Changing σ Unit)
      = .of (Directory.updateNode node size mtime) := by
  obtain ⟨record, _ | address⟩ := node
  · rfl
  · have hlt := small.record_lt address rfl
    change updateRecord address size mtime = .of (Directory.updateRecord address size mtime)
    have hsizeOffset : Record.sizeOffset = 5 := rfl
    have hmtimeOffset : Record.mtimeOffset = 9 := rfl
    rw [updateRecord]
    simp (disch := omega) only [add_eq, Changing.check_ok_bind]
    exact Changing.bind_of rfl fun _ _ => rfl

variable (regular : layout.Regular)
include regular

theorem encode_of (record : Record) :
    encode layout.blockSize record = .of (record.encode layout.blockSize) := by
  rw [encode, mod_eq regular.blockSize_pos, Checked.ok_bind, div_eq regular.blockSize_pos,
    Checked.ok_bind]

theorem placeFor_of (small : tail.Small layout) {length : Nat} (hlength : length < 2 ^ 61) :
    (placeFor layout tail length : Changing σ Nat)
      = .of (Directory.placeFor layout tail length) := by
  have hoffset := small.offset_le
  have hblock := small.block_lt
  have hsize := regular.blockSize_lt
  have hend := regular.endAddress_lt
  rw [placeFor, add_eq (by omega), Changing.check_ok_bind, Directory.placeFor]
  split
  · rw [add_eq (by omega)]
    rfl
  · refine Changing.bind_of (acquire_of regular) fun added hadded => ?_
    have hlt := lt_end_of_acquire hadded
    refine Changing.bind_of (link_of regular tail.block added) fun _ _ => ?_
    rw [add_eq (by rw [Cursor.firstRecord, Layout.linkSize]; omega)]
    rfl

theorem append_of (small : tail.Small layout) {name : String}
    (hname : name.utf8ByteSize ≤ Record.maxNameSize) (kind : Kind) (mtime : UInt64) :
    (append layout tail name kind mtime : Changing σ Node)
      = .of (Directory.append layout tail name kind mtime) := by
  rw [Record.maxNameSize] at hname
  refine Changing.bind_of (acquire_of regular) fun address _ => ?_
  refine Changing.bind_of (Changing.check_of (encode_of regular _)) fun bytes _ => ?_
  rw [add_eq (by rw [Record.headerSize]; omega), Changing.check_ok_bind]
  refine Changing.bind_of (placeFor_of regular small ?_) fun recordAddress _ => ?_
  · rw [Record.headerSize]
    omega
  · exact Changing.bind_of rfl fun _ _ => rfl

omit regular in
/-- A name that a new entry may have is short. -/
theorem name_le_of_checkNew {parent : Node} {name : String}
    (h : Directory.checkNew parent name = .ok ()) : name.utf8ByteSize ≤ Record.maxNameSize :=
  (Directory.validName_of_ok (Volume.of_checkNew h).1).size_le

/-- A new entry, whatever the directory holds. -/
theorem create_of {parent : Node} (small : parent.Small) (name : String) (kind : Kind)
    (mtime : UInt64) :
    (create (.of layout) layout parent name kind mtime : Changing σ Node)
      = .of (Directory.create layout parent name kind mtime) := by
  refine Changing.bind_of (Changing.check_of rfl) fun _ hcheck => ?_
  obtain ⟨-, hcheck⟩ := hcheck.of_ask
  have hname := name_le_of_checkNew hcheck
  have hheader : Record.headerSize = 18 := rfl
  have hmax : Record.maxNameSize = 255 := rfl
  refine Changing.bind_of (Changing.ask_of fun store =>
    tailFor_of regular small.address_lt name) fun tail htail => ?_
  obtain ⟨_, htail⟩ := htail.of_ask
  have htail := tailFor_small regular small.address_lt htail
  have hlive := htail.liveSize_lt regular
  rw [add_eq (by omega), Changing.check_ok_bind]
  refine Changing.bind_of (Changing.check_of ?_) fun size _ => ?_
  · rw [grownSize, add_eq (by omega), Checked.ok_bind, Directory.grownSize]
    split <;> rfl
  · exact Changing.bind_of (updateNode_of small size mtime) fun _ _ =>
      append_of regular htail hname kind mtime

end

end ChainFs.Words
