import ChainFs.Tool.Arguments
import ChainFs.Tool.Workspace

/-!
# The tools

A tool is a function of its arguments in a workspace, which stands for the files of the machine. It
ends with a code and with what it has said, to those who read its results and to those who look for
what went wrong.

* `Tool.format` — makes a volume in a new file;
* `Tool.mount` — mounts the volume in a file;
* `Tool.run?` — either of them by its name.

A tool that was called with wrong arguments ends with code 2, one that failed with code 1.

What was written before a tool failed is kept, as it would be in a file of the machine.
-/

namespace ChainFs.Tool

/-- How a tool ended and what it printed. -/
structure Outcome where
  code : Nat
  stdout : String
  stderr : String
  deriving DecidableEq, Repr

namespace Outcome

/-- The tool did what it was asked to. -/
def success (report : String) : Outcome :=
  ⟨0, report, ""⟩

/-- The tool failed for a reason. -/
def failure (reason : String) : Outcome :=
  ⟨1, "", "Error: " ++ reason ++ "\n"⟩

/-- The tool was called with wrong arguments. -/
def misuse (fault : ArgumentFault) (usage : String) : Outcome :=
  ⟨2, "", fault.message ++ "Usage: " ++ usage ++ "\n"⟩

end Outcome

/-- A failure together with what lies behind it. -/
def explain (e : Error) : String :=
  match e.cause? with
  | some cause => e.message ++ ": " ++ cause
  | none => e.message

/-- A path as it is shown in messages. -/
def shown (path : String) : String :=
  "'" ++ path ++ "'"

/-! ### Making a volume -/

/-- The name of the tool that makes volumes. -/
def formatName : String :=
  "mkfs_moros"

/-- How the tool that makes volumes is called. -/
def formatUsage : String :=
  formatName ++ " [--blocks=N] [--blocksize=B] <image>"

/-- What is said of a new volume. -/
def formatReport (arguments : FormatArguments) (layout : Layout) : String :=
  "MOROS FS created in " ++ shown arguments.image ++ "\n"
    ++ "block_size=" ++ toString arguments.blockSize.toNat
    ++ ", block_count=" ++ toString arguments.blocks.toNat ++ "\n"
    ++ "Layout:\n"
    ++ "  superblock : " ++ Text.hex layout.superblockAddress ++ "\n"
    ++ "  bitmap     : " ++ Text.hex layout.bitmapAddress
    ++ " (" ++ toString layout.bitmapBlocks ++ " blocks)\n"
    ++ "  data       : " ++ Text.hex layout.dataAddress ++ "\n"

variable {m : Type → Type} [Monad m]

/-- Makes a volume in a new file. -/
def formatImage (workspace : Workspace m) (arguments : FormatArguments) : m Outcome := do
  let blockSize := arguments.blockSize
  if !Volume.isBlockSize blockSize.toNat then
    return .failure ("block size " ++ toString blockSize.toNat
      ++ " must be a power of two of at least 512")
  match ← workspace.create arguments.image (arguments.blocks.toNat * blockSize.toNat) with
  | .error e =>
    return .failure ("creating " ++ shown arguments.image ++ ": " ++ explain (.io (.system e)))
  | .ok file =>
    match (Volume.format blockSize : Edit Store.File Layout) file with
    | .error e file =>
      workspace.save arguments.image file
      return .failure ("formatting " ++ shown arguments.image ++ ": " ++ explain e)
    | .ok layout file =>
      workspace.save arguments.image file
      return .success (formatReport arguments layout)

/-- The tool that makes volumes. -/
def format (workspace : Workspace m) (arguments : List String) : m Outcome :=
  match FormatArguments.parse arguments with
  | .error fault => return .misuse fault formatUsage
  | .ok arguments => formatImage workspace arguments

/-! ### Mounting a volume -/

/-- The name of the tool that mounts volumes. -/
def mountName : String :=
  "moros_fuse"

/-- How the tool that mounts volumes is called. -/
def mountUsage : String :=
  mountName ++ " <image> <mountpoint> [--rw] [--allow-other] [--blocksize=N]"

/-- Mounts the volume in a file. -/
def mountImage (workspace : Workspace m) (arguments : MountArguments) : m Outcome := do
  match ← workspace.openFile arguments.image arguments.options.readWrite with
  | .error e =>
    return .failure ("opening image " ++ shown arguments.image ++ ": "
      ++ explain (.io (.system e)))
  | .ok file =>
    match Volume.load file arguments.blockSize with
    | .error e =>
      return .failure (shown arguments.image ++ " is not a valid MOROS FS image: " ++ explain e)
    | .ok _ =>
      match ← workspace.attach arguments.mountPoint with
      | .error e =>
        return .failure ("mounting on " ++ shown arguments.mountPoint ++ ": " ++ e.message)
      | .ok () => return .success ""

/-- The tool that mounts volumes. -/
def mount (workspace : Workspace m) (arguments : List String) : m Outcome :=
  match MountArguments.parse arguments with
  | .error fault => return .misuse fault mountUsage
  | .ok arguments => mountImage workspace arguments

/-- Runs a tool by its name, if there is one of that name. -/
def run? (workspace : Workspace m) (name : String) (arguments : List String) :
    Option (m Outcome) :=
  if name = formatName then some (format workspace arguments)
  else if name = mountName then some (mount workspace arguments)
  else none

end ChainFs.Tool
