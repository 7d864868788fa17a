import ChainFs.Text.Hex
import ChainFs.Text.Quoted

/-!
# What can go wrong

Every failure is kept as its cause; the wording and the error number are read off it.

A cause carries what its message needs, such as the path or the address, and nothing that depends on
who asked. So failures can be compared, and a statement about when a call fails is also one about
what is told and with which error number.

* `SystemError` — what the host system says when it refuses a file operation;
* `AccessFault` — why a store could not carry out a read or a write;
* `ImageFault` — why a byte string is no usable volume;
* `Error` — all failures, with `Error.message`, `Error.errno` and `Error.cause?`.
-/

namespace ChainFs

/-- A refusal of the host system: the number it gives to the refusal, and its wording. -/
structure SystemError where
  number : Nat
  wording : String
  deriving DecidableEq, Repr

namespace SystemError

def noEntry : SystemError :=
  ⟨2, "No such file or directory"⟩

def notDirectory : SystemError :=
  ⟨20, "Not a directory"⟩

def isDirectory : SystemError :=
  ⟨21, "Is a directory"⟩

def invalidArgument : SystemError :=
  ⟨22, "Invalid argument"⟩

def fileTooLarge : SystemError :=
  ⟨27, "File too large"⟩

def nameTooLong : SystemError :=
  ⟨36, "File name too long"⟩

/-- The wording with the number behind it. -/
def message (e : SystemError) : String :=
  e.wording ++ " (os error " ++ toString e.number ++ ")"

end SystemError

/-- Why a store could not carry out an access. -/
inductive AccessFault
  /-- The access reaches past the end of a store of fixed length. -/
  | pastEnd (offset length : Nat)
  /-- A file ended before the requested bytes. -/
  | shortRead
  | system (error : SystemError)
  | other (text : String)
  deriving DecidableEq, Repr

/-- The wording of an access fault. -/
def AccessFault.message : AccessFault → String
  | .pastEnd offset length =>
    "access at " ++ Text.hex offset ++ "+" ++ toString length ++ " past end of image"
  | .shortRead => "failed to fill whole buffer"
  | .system error => error.message
  | .other text => text

/-- Why a byte string is no usable volume. -/
inductive ImageFault
  | superblockTruncated (size : Nat)
  | badSignature
  | unsupportedVersion (version : Nat)
  | badBlockSizeCode (code : Nat)
  /-- The superblock holds one block size, and another one is asked for. -/
  | blockSizeMismatch (stored configured : Nat)
  | noRoomPastSuperblock (blocks : Nat)
  | noRoomForBitmap (blocks : Nat)
  | noSuperblock (size : Nat)
  | shorterThanBlocks (size blocks : Nat)
  | unsupportedBlockSize (size : Nat)
  | tooManyBlocks
  /-- More pointers of a directory chain can be followed than there are blocks. -/
  | endlessDirectory (address : Nat)
  | other (text : String)
  deriving DecidableEq, Repr

/-- The wording of an image fault. -/
def ImageFault.message : ImageFault → String
  | .superblockTruncated size => "superblock truncated to " ++ toString size ++ " bytes"
  | .badSignature => "bad signature"
  | .unsupportedVersion version => "unsupported version " ++ toString version
  | .badBlockSizeCode code => "bad block size code " ++ toString code
  | .blockSizeMismatch stored configured =>
    "block size " ++ toString stored ++ " does not match configured " ++ toString configured
  | .noRoomPastSuperblock blocks =>
    toString blocks ++ " blocks leave no room past the superblock"
  | .noRoomForBitmap blocks => toString blocks ++ " blocks leave no room for the bitmap"
  | .noSuperblock size => "image of " ++ toString size ++ " bytes has no superblock"
  | .shorterThanBlocks size blocks =>
    "image of " ++ toString size ++ " bytes is shorter than its " ++ toString blocks ++ " blocks"
  | .unsupportedBlockSize size => "unsupported block size " ++ toString size
  | .tooManyBlocks => "image has too many blocks"
  | .endlessDirectory address =>
    "directory chain at " ++ Text.hex address ++ " does not terminate"
  | .other text => text

/-- A failed operation, by its cause. -/
inductive Error
  | io (fault : AccessFault)
  /-- The bytes are no volume, or not one of the expected shape. -/
  | invalidImage (fault : ImageFault)
  | notFound (what : String)
  /-- The record at this address holds a name that is no text. -/
  | invalidEncoding (address : Nat)
  /-- Every bit of the bitmap is set. -/
  | outOfSpace
  /-- A block address outside the data region, or one that is not at a block boundary. -/
  | invalidAddress (address : Nat)
  | notDirectory (what : String)
  | isDirectory (what : String)
  | alreadyExists (what : String)
  | invalidName (name : String)
  | nameTooLong (size : Nat)
  | fileTooLarge
  | readOnly
  | invalidOffset (offset : Int)
  /-- An operation that volumes do not offer, such as cutting a file short. -/
  | unsupported (operation : String)
  deriving DecidableEq, Repr

namespace Error

/-- The wording of a failure. -/
def message : Error → String
  | .io fault => "I/O error: " ++ fault.message
  | .invalidImage fault => "invalid image: " ++ fault.message
  | .notFound what => "not found: " ++ what
  | .invalidEncoding address => "invalid name encoding in record at " ++ Text.hex address
  | .outOfSpace => "no space left on image"
  | .invalidAddress address => "invalid block address " ++ Text.hex address
  | .notDirectory what => "not a directory: " ++ what
  | .isDirectory what => "is a directory: " ++ what
  | .alreadyExists what => "already exists: " ++ what
  | .invalidName name => "invalid name: " ++ Text.quoted name
  | .nameTooLong size => "name too long: " ++ toString size ++ " bytes"
  | .fileTooLarge => "file too large"
  | .readOnly => "read-only image"
  | .invalidOffset offset => "negative offset " ++ toString offset
  | .unsupported operation => "unsupported: " ++ operation

/-- The failure that lies behind another one and is reported after it. -/
def cause? : Error → Option String
  | .io fault => some fault.message
  | _ => none

/-- The system error number a mounted volume answers with. -/
def errno : Error → Nat
  | .io _ => 5
  | .invalidImage _ => 22
  | .notFound _ => 2
  | .invalidEncoding _ => 5
  | .outOfSpace => 28
  | .invalidAddress _ => 5
  | .notDirectory _ => 20
  | .isDirectory _ => 21
  | .alreadyExists _ => 17
  | .invalidName _ => 22
  | .nameTooLong _ => 36
  | .fileTooLarge => 27
  | .readOnly => 30
  | .invalidOffset _ => 22
  | .unsupported _ => 38

end Error

end ChainFs
