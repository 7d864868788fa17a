import ChainFs.Volume

/-!
# Calls on a volume

The operations of an open volume as data, so that a run of them is a list.

* `Call`, `Reply` — an operation with its arguments, what a successful one answers;
* `Call.run` — carries a call out;
* `Call.runAll` — carries calls out one after the other, each at its own time, whether or not the
  ones before it failed.

A run goes on after a call that failed, on the store that this call has left. So whatever is shown
for all runs holds in every state that a volume can come to by calls, failures included.
-/

namespace ChainFs.Volume

/-- An operation on an open volume. -/
inductive Call
  | scan (path : String)
  | lookup (path : String)
  | list (path : String)
  | read (path : String) (offset length : Nat)
  | write (path : String) (offset : Nat) (data : ByteArray)
  | create (parent name : String) (kind : Kind)
  | makeDirectory (path : String)
  | createFile (path : String)
  | usage

/-- What a successful call answers. -/
inductive Reply
  /-- The node a path leads to, if any. -/
  | found (node? : Option Node)
  | stat (stat : Stat)
  | listing (nodes : Array Node)
  | content (bytes : ByteArray)
  | written (count : Nat)
  | created (node : Node)
  | usage (usage : Usage)

variable {σ : Type} [Store σ]

/-- Carries a call out at a given time. -/
def Call.run (layout : Layout) (now : UInt64) : Call → Edit σ Reply
  | .scan path => .found <$> Edit.ask (Volume.scan layout · path)
  | .lookup path => .stat <$> Edit.ask (Volume.lookup layout · path)
  | .list path => .listing <$> Edit.ask (Volume.list layout · path)
  | .read path offset length => .content <$> Edit.ask (Volume.read layout · path offset length)
  | .write path offset data => .written <$> Volume.write layout now path offset data
  | .create parent name kind => .created <$> Volume.create layout now parent name kind
  | .makeDirectory path => .created <$> Volume.makeDirectory layout now path
  | .createFile path => .created <$> Volume.createFile layout now path
  | .usage => .usage <$> Edit.ask (Volume.usage layout)

/-- Carries out calls in order and collects what each of them answers. -/
def Call.runAll (layout : Layout) : List (UInt64 × Call) → σ → List (Except Error Reply) × σ
  | [], store => ([], store)
  | (now, call) :: rest, store =>
    let (answer, store) := match call.run layout now store with
      | .ok reply store => (.ok reply, store)
      | .error e store => (.error e, store)
    let (answers, store) := runAll layout rest store
    (answer :: answers, store)

end ChainFs.Volume
