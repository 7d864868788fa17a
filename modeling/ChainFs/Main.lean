import ChainFs.Tool.Basic

/-!
# The command line

The tools on the files of the machine. The first argument is the name of the tool, the others are
its arguments. Volumes are served over a request interface that is not part of this program, so a
mount point that exists is refused as unsupported.
-/

namespace ChainFs.Tool

/-- A refusal of the machine by its number and wording. -/
def systemErrorOf : IO.Error → SystemError
  | .noFileOrDirectory _ code wording => ⟨code.toNat, wording⟩
  | .inappropriateType _ code wording => ⟨code.toNat, wording⟩
  | .permissionDenied _ code wording => ⟨code.toNat, wording⟩
  | .resourceExhausted _ code wording => ⟨code.toNat, wording⟩
  | .invalidArgument _ code wording => ⟨code.toNat, wording⟩
  | .noSuchThing _ code wording => ⟨code.toNat, wording⟩
  | .alreadyExists _ code wording => ⟨code.toNat, wording⟩
  | .otherError code wording => ⟨code.toNat, wording⟩
  | e => ⟨5, toString e⟩

/-- Lets a refusal of the machine be a result. -/
def attempt {α : Type} (act : IO α) : IO (Except SystemError α) := do
  try
    return .ok (← act)
  catch e =>
    return .error (systemErrorOf e)

/-- The length of the longest file that can be read and written by position. Where a file is stored
may leave it less room; that shows when it is saved. -/
def longestFile : Nat :=
  Store.File.positionLimit - 1

/-- The files of the machine. -/
def machine : Workspace IO where
  create path length := attempt do
    let file := Store.File.create longestFile length
    IO.FS.writeBinFile path file.content.toBytes
    return file
  openFile path writable := attempt do
    if writable then
      let _ ← IO.FS.Handle.mk path .readWrite
    return Store.File.ofContent longestFile (.ofBytes (← IO.FS.readBinFile path)) writable
  save path file := IO.FS.writeBinFile path file.content.toBytes
  attach path := attempt do
    let _ ← IO.FS.realPath path
    throw (.otherError 95 "Operation not supported")

/-- Prints what a tool has to say and passes its code on. -/
def finish (outcome : Outcome) : IO UInt32 := do
  IO.print outcome.stdout
  IO.eprint outcome.stderr
  return UInt32.ofNat outcome.code

end ChainFs.Tool

open ChainFs.Tool in
/-- Runs the tool that the first argument names. -/
def main (arguments : List String) : IO UInt32 := do
  let name := arguments.headD ""
  match run? machine name (arguments.drop 1) with
  | some outcome => finish (← outcome)
  | none =>
    IO.eprintln ("Usage: " ++ formatUsage)
    IO.eprintln ("       " ++ mountUsage)
    return 2
