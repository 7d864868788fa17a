import ChainFs.Proofs.Volume.Confined
import ChainFs.Proofs.Words.Directories

/-!
# Calls on a machine

An image that opens may hold anything where the superblock does not stand. A call on it still ends
with an answer or with an error, and on the way no number leaves a word, no position is outside its
bytes, and no loop visits more blocks than it may.

* `Words.run` — the calls, in machine words;
* `Words.run_never_crashes` — they end as the calls do, with a reply or an error.

The limits are those of the layout and are handed down from the call. Together with the bounds of a
regular layout they are all that is known, so the image may have been written by anyone.
-/

namespace ChainFs.Words

variable {σ : Type} [Store σ]

/-! ## Questions -/

/-- Reads a superblock from the start of a byte string. -/
def superblock (bytes : ByteArray) : Checked Superblock := do
  if bytes.size < Superblock.encodedSize then
    refuse (.invalidImage (.superblockTruncated bytes.size))
  else
    let signature ← slice bytes 0 8
    let version ← byteAt bytes 8
    let code ← byteAt bytes 9
    let blockCount ← numberAt bytes 10 4
    let allocCount ← numberAt bytes 14 4
    if signature.data ≠ Superblock.signature.data then refuse (.invalidImage .badSignature)
    else if version ≠ Superblock.version then
      refuse (.invalidImage (.unsupportedVersion version.toNat))
    else if Superblock.largestSizeCode < code.toNat then
      refuse (.invalidImage (.badBlockSizeCode code.toNat))
    else
      return {
        blockSize := UInt32.ofNat (1 <<< (Superblock.smallestExponent + code.toNat))
        blockCount := UInt32.ofNat blockCount
        allocCount := UInt32.ofNat allocCount }

/-- How full the volume is, as its superblock says now. -/
def usage (layout : Layout) (store : σ) : Checked Usage := do
  let bytes ← read store layout.superblockAddress layout.blockSize
  let superblock ← superblock bytes
  return {
    blockSize := layout.blockSize
    blockCount := layout.blockCount
    allocCount := superblock.allocCount.toNat }

/-- Follows names downwards from a node. -/
def descend (limits : Limits) (layout : Layout) (store : σ) :
    Node → List String → Checked (Option Node)
  | node, [] => return some node
  | node, name :: rest =>
    if !node.isDirectory then return none
    else do
      match ← find limits layout store node.record.address name with
      | none => return none
      | some child => descend limits layout store child rest

/-- The node a path leads to from the root, if there is one. -/
def scan (limits : Limits) (layout : Layout) (store : σ) (path : String) :
    Checked (Option Node) :=
  descend limits layout store (Node.root layout) (Path.components path)

/-- The node a path leads to. -/
def resolve (limits : Limits) (layout : Layout) (store : σ) (path : String) : Checked Node := do
  match ← scan limits layout store path with
  | some node => return node
  | none => refuse (.notFound path)

/-- The size of a node. The root has no record to keep it, so its size is added up. -/
def nodeSize (limits : Limits) (layout : Layout) (store : σ) (node : Node) : Checked Nat :=
  match node.recordAddress with
  | none => liveSize limits layout store node.record.address
  | some _ => return node.record.size.toNat

/-- Kind, size and mtime of what a path leads to. -/
def lookup (limits : Limits) (layout : Layout) (store : σ) (path : String) : Checked Stat := do
  let node ← resolve limits layout store path
  let size ← nodeSize limits layout store node
  return { kind := node.record.kind, size, mtime := node.record.mtime }

/-- The entries of a directory, in their order. -/
def list (limits : Limits) (layout : Layout) (store : σ) (path : String) :
    Checked (Array Node) := do
  let node ← resolve limits layout store path
  if !node.isDirectory then refuse (.notDirectory path)
  else nodes limits layout store node.record.address

/-- At most `length` bytes of a file from `offset` on. -/
def readFile (limits : Limits) (layout : Layout) (store : σ) (path : String)
    (offset length : Nat) : Checked ByteArray := do
  let node ← resolve limits layout store path
  if node.isDirectory then refuse (.isDirectory path)
  else readRange limits layout store node.record.address node.record.size.toNat offset length

/-! ## Changes -/

/-- The size of a file after `length` bytes were written at `offset`. That the sum is no word is an
answer here. -/
def grownFile (node : Node) (offset length : Nat) : Checked UInt32 :=
  if limit ≤ offset + length then refuse .fileTooLarge
  else
    let size := max (offset + length) node.record.size.toNat
    if size < UInt32.size then return UInt32.ofNat size else refuse .fileTooLarge

/-- Writes data into a file at `offset`, letting it grow as needed, and tells how many bytes were
written. -/
def writeFile (limits : Limits) (layout : Layout) (now : UInt64) (path : String) (offset : Nat)
    (data : ByteArray) : Changing σ Nat := do
  let node ← ask (resolve limits layout · path)
  if node.isDirectory then check (refuse (.isDirectory path))
  else if data.size = 0 then pure 0
  else do
    let size ← check (grownFile node offset data.size)
    updateNode node size now
    writeRange limits layout node.record.address offset data
    return data.size

/-- Creates an entry in the directory a path leads to. -/
def createIn (limits : Limits) (layout : Layout) (now : UInt64) (parent name : String)
    (kind : Kind) : Changing σ Node := do
  let node ← ask (resolve limits layout · parent)
  create limits layout node name kind now

/-- Creates an entry at a path. -/
def createAt (limits : Limits) (layout : Layout) (now : UInt64) (path : String) (kind : Kind) :
    Changing σ Node := do
  let (parent, name) ← check (.of (Path.splitLast path))
  createIn limits layout now parent name kind

/-- Carries a call out at a given time. -/
def run (limits : Limits) (layout : Layout) (now : UInt64) :
    Volume.Call → Changing σ Volume.Reply
  | .scan path => .found <$> ask (scan limits layout · path)
  | .lookup path => .stat <$> ask (lookup limits layout · path)
  | .list path => .listing <$> ask (list limits layout · path)
  | .read path offset length => .content <$> ask (readFile limits layout · path offset length)
  | .write path offset data => .written <$> writeFile limits layout now path offset data
  | .create parent name kind => .created <$> createIn limits layout now parent name kind
  | .makeDirectory path => .created <$> createAt limits layout now path .directory
  | .createFile path => .created <$> createAt limits layout now path .file
  | .usage => .usage <$> ask (usage layout)

/-! ## No crash -/

theorem superblock_of (bytes : ByteArray) :
    superblock bytes = .of (Superblock.decode bytes) := by
  rw [superblock, Superblock.decode]
  split
  · rfl
  rename_i hsize
  rw [Superblock.encodedSize] at hsize
  simp (disch := omega) only [slice_eq, byteAt_eq, numberAt_eq, Checked.ok_bind]
  split
  · rfl
  split
  · rfl
  split <;> rfl

/-- The root directory starts in the data region. -/
theorem small_root {layout : Layout} (regular : layout.Regular) : (Node.root layout).Small :=
  ⟨regular.dataAddress_lt, fun _ hx => nomatch hx⟩

section

variable {layout : Layout} {store : σ} {node : Node} {path : String}

/-- What names lead to has small addresses. -/
theorem descend_small (regular : layout.Regular) {top : Node} {names : List String}
    (small : top.Small) (h : Volume.descend layout store top names = .ok (some node)) :
    node.Small := by
  induction names generalizing top with
  | nil =>
    obtain rfl := Option.some.inj (Except.ok.inj h)
    exact small
  | cons name rest ih =>
    obtain ⟨-, child, hfind, hrest⟩ := Volume.of_descend_cons h
    exact ih (find_small regular small.address_lt hfind) hrest

theorem resolve_small (regular : layout.Regular)
    (h : Volume.resolve layout store path = .ok node) : node.Small :=
  descend_small regular (small_root regular) (Volume.scan_of_resolve h)

omit [Store σ] in
theorem grownFile_of (node : Node) (offset length : Nat) :
    grownFile node offset length = .of (Volume.grownSize node offset length) := by
  rw [grownFile, Volume.grownSize]
  dsimp only
  split
  · rename_i hlarge
    have hsize : UInt32.size ≤ limit := by decide
    rw [if_neg (by omega)]
    rfl
  · split <;> rfl

theorem usage_of (layout : Layout) (store : σ) :
    usage layout store = .of (Volume.usage layout store) := by
  rw [usage, Volume.usage, Volume.superblockAt, bind_assoc]
  exact Checked.bind_of rfl fun bytes _ =>
    Checked.bind_of (superblock_of bytes) fun _ _ => rfl

variable (regular : layout.Regular)
include regular

theorem descend_of {top : Node} (small : top.Small) (names : List String) :
    descend (.of layout) layout store top names = .of (Volume.descend layout store top names) := by
  induction names generalizing top with
  | nil => rfl
  | cons name rest ih =>
    rw [descend, Volume.descend]
    split
    · rfl
    · refine Checked.bind_of (find_of regular small.address_lt name) fun found hfound => ?_
      cases found with
      | none => rfl
      | some child => exact ih (find_small regular small.address_lt hfound)

theorem scan_of (path : String) :
    scan (.of layout) layout store path = .of (Volume.scan layout store path) :=
  descend_of regular (small_root regular) _

theorem resolve_of (path : String) :
    resolve (.of layout) layout store path = .of (Volume.resolve layout store path) := by
  refine Checked.bind_of (scan_of regular path) fun found _ => ?_
  cases found <;> rfl

theorem lookup_of (path : String) :
    lookup (.of layout) layout store path = .of (Volume.lookup layout store path) := by
  refine Checked.bind_of (resolve_of regular path) fun node hnode => ?_
  have small := resolve_small regular hnode
  refine Checked.bind_of ?_ fun _ _ => rfl
  rw [nodeSize, Volume.nodeSize]
  cases node.recordAddress with
  | none => exact liveSize_of regular small.address_lt
  | some x => rfl

theorem list_of (path : String) :
    list (.of layout) layout store path = .of (Volume.list layout store path) := by
  refine Checked.bind_of (resolve_of regular path) fun node hnode => ?_
  have small := resolve_small regular hnode
  split
  · rfl
  · exact nodes_of regular small.address_lt

theorem readFile_of (path : String) (offset length : Nat) :
    readFile (.of layout) layout store path offset length
      = .of (Volume.read layout store path offset length) := by
  refine Checked.bind_of (resolve_of regular path) fun node hnode => ?_
  have small := resolve_small regular hnode
  split
  · rfl
  · exact readRange_of regular small.address_lt node.record.size.toNat_lt offset length

theorem writeFile_of (now : UInt64) (path : String) (offset : Nat) (data : ByteArray) :
    (writeFile (.of layout) layout now path offset data : Changing σ Nat)
      = .of (Volume.write layout now path offset data) := by
  refine Changing.bind_of (Changing.ask_of fun store => resolve_of regular path)
    fun node hnode => ?_
  obtain ⟨_, hnode⟩ := hnode.of_ask
  have small := resolve_small regular hnode
  split
  · rfl
  split
  · rfl
  refine Changing.bind_of (Changing.check_of (grownFile_of node offset data.size))
    fun size hsize => ?_
  refine Changing.bind_of (updateNode_of small size now) fun _ _ => ?_
  have hdata : data.size < 2 ^ 64 := by
    obtain ⟨-, hsize⟩ := hsize.of_ask
    rw [Volume.grownSize] at hsize
    split at hsize
    · rename_i hlt
      rw [UInt32.size] at hlt
      omega
    · cases hsize
  exact Changing.bind_of (writeRange_of regular hdata _ offset) fun _ _ => rfl

theorem createIn_of (now : UInt64) (parent name : String) (kind : Kind) :
    (createIn (.of layout) layout now parent name kind : Changing σ Node)
      = .of (Volume.create layout now parent name kind) := by
  refine Changing.bind_of (Changing.ask_of fun store => resolve_of regular parent)
    fun node hnode => ?_
  obtain ⟨_, hnode⟩ := hnode.of_ask
  exact create_of regular (resolve_small regular hnode) name kind now

theorem createAt_of (now : UInt64) (path : String) (kind : Kind) :
    (createAt (.of layout) layout now path kind : Changing σ Node)
      = .of (Volume.createAt layout now path kind) :=
  Changing.bind_of (Changing.check_of rfl) fun (parent, name) _ =>
    createIn_of regular now parent name kind

theorem run_of (now : UInt64) (call : Volume.Call) :
    (run (.of layout) layout now call : Changing σ Volume.Reply) = .of (call.run layout now) := by
  cases call with
  | scan path => exact Changing.map_of _ (Changing.ask_of fun _ => scan_of regular path)
  | lookup path => exact Changing.map_of _ (Changing.ask_of fun _ => lookup_of regular path)
  | list path => exact Changing.map_of _ (Changing.ask_of fun _ => list_of regular path)
  | read path offset length =>
    exact Changing.map_of _ (Changing.ask_of fun _ => readFile_of regular path offset length)
  | write path offset data => exact Changing.map_of _ (writeFile_of regular now path offset data)
  | create parent name kind => exact Changing.map_of _ (createIn_of regular now parent name kind)
  | makeDirectory path => exact Changing.map_of _ (createAt_of regular now path .directory)
  | createFile path => exact Changing.map_of _ (createAt_of regular now path .file)
  | usage => exact Changing.map_of _ (Changing.ask_of fun store => usage_of layout store)

end

/-- Whatever the store holds by now, a call on a volume that was opened ends with a reply or with an
error, the same as without any limits. No step of it crashes: no number leaves a word, no position
is outside its bytes, a walk through a directory visits at most as many blocks as the bitmap has
bits and one more, and a read or a write at most as many as hold the payload up to where it
reaches. -/
theorem run_never_crashes {opened : σ} {blockSize : UInt32} {layout : Layout}
    (hload : Volume.load opened blockSize = .ok layout) (now : UInt64) (call : Volume.Call)
    (store : σ) :
    (∃ reply after, call.run layout now store = .ok reply after ∧
      run (.of layout) layout now call store = .ok reply after) ∨
    ∃ e after, call.run layout now store = .error e after ∧
      run (.of layout) layout now call store = .error (.refused e) after := by
  have regular := (Volume.regular_of_load hload).1
  rw [run_of regular now call, Changing.of]
  cases call.run layout now store with
  | ok reply after => exact .inl ⟨reply, after, rfl, rfl⟩
  | error e after => exact .inr ⟨e, after, rfl, rfl⟩

/-- A root directory whose chain runs in a circle. -/
theorem run_never_crashes_on_circle :
    ∃ volume, Volume.format 512 (Volume.blank 4195840) = .ok Volume.smallest volume ∧
      Volume.load volume 512 = .ok Volume.smallest ∧
      let damaged : Store.Memory := ⟨Bytes.overlay volume.bytes 2098688 (Bytes.ofNumber 4 4099)⟩
      let call := Volume.Call.createFile "/a"
      (∃ reply after, call.run Volume.smallest 5 damaged = .ok reply after ∧
        run (.of Volume.smallest) Volume.smallest 5 call damaged = .ok reply after) ∨
      ∃ e after, call.run Volume.smallest 5 damaged = .error e after ∧
        run (.of Volume.smallest) Volume.smallest 5 call damaged = .error (.refused e) after := by
  obtain ⟨volume, hformat⟩ := Volume.format_blank
  obtain ⟨hsize, hformatted⟩ := Volume.formatted_of_ok hformat
  have hload := hformatted.sealed.load_eq hformatted.regular (hformatted.fits.trans hsize.ge)
  exact ⟨volume, hformat, hload, run_never_crashes hload 5 (.createFile "/a") _⟩

end ChainFs.Words
