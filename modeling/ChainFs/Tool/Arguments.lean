import ChainFs.Mount.Server

/-!
# Arguments of the tools

Both tools take options that start with two dashes, anywhere between the other arguments; a single
dash is an ordinary file name. Options are read from left to right, and the first fault ends it.

* `Tool.number?` — the number of an option;
* `FormatArguments.parse` — the arguments of the tool that makes a volume;
* `MountArguments.parse` — the arguments of the tool that mounts one.

A number is a decimal of 32 bits, and it stands in the same argument as the name of its option,
behind an equals sign. How many arguments there are is looked at when all of them were read.
-/

namespace ChainFs.Tool

/-- Why arguments are refused. -/
inductive ArgumentFault
  | badValue (option : String)
  | unknownOption (argument : String)
  /-- Too many or too few arguments, or an option where none is known. -/
  | wrongUsage
  deriving DecidableEq, Repr

/-- What is said of a fault, in front of how the tool is used. -/
def ArgumentFault.message : ArgumentFault → String
  | .badValue option => "Bad " ++ option ++ " value\n"
  | .unknownOption argument => "Unknown option " ++ argument ++ "\n"
  | .wrongUsage => ""

/-- Decimal digits as a number, on top of the ones read before. -/
def digits? (read : Nat) : List Char → Option Nat
  | [] => some read
  | c :: rest => if c.isDigit then digits? (read * 10 + (c.toNat - '0'.toNat)) rest else none

/-- A 32-bit number in decimal digits, with a plus in front of it at most. -/
def number? (text : String) : Option UInt32 := do
  let digits := match text.toList with
    | '+' :: rest => rest
    | chars => chars
  guard (digits ≠ [])
  let n ← digits? 0 digits
  guard (n < UInt32.size)
  return UInt32.ofNat n

/-- What is left of an argument behind an option's name. -/
def valueOf? (option argument : String) : Option String :=
  if option.toList.isPrefixOf argument.toList then
    some (String.ofList (argument.toList.drop option.length))
  else none

/-- Whether an argument looks like an option. -/
def isOption (argument : String) : Bool :=
  ['-', '-'].isPrefixOf argument.toList

/-- The value of a numeric option. -/
def numberOf (option value : String) : Except ArgumentFault UInt32 :=
  match number? value with
  | some n => .ok n
  | none => .error (.badValue option)

/-- The usual size of a block. -/
def defaultBlockSize : UInt32 :=
  512

/-! ### Making a volume -/

/-- What to make a volume of. -/
structure FormatArguments where
  blocks : UInt32
  blockSize : UInt32
  image : String
  deriving DecidableEq, Repr

namespace FormatArguments

/-- The fewest blocks of the usual size that leave room for a bitmap. -/
def defaultBlocks : UInt32 :=
  8195

/-- Reads the arguments that are left, the ones before them being read already. -/
def parseFrom (blocks blockSize : UInt32) (image? : Option String) :
    List String → Except ArgumentFault FormatArguments
  | [] =>
    match image? with
    | some image => .ok { blocks, blockSize, image }
    | none => .error .wrongUsage
  | argument :: rest =>
    match valueOf? "--blocks=" argument with
    | some value => do
      let blocks ← numberOf "--blocks" value
      parseFrom blocks blockSize image? rest
    | none =>
      match valueOf? "--blocksize=" argument with
      | some value => do
        let blockSize ← numberOf "--blocksize" value
        parseFrom blocks blockSize image? rest
      | none =>
        if image?.isNone && !isOption argument then
          parseFrom blocks blockSize (some argument) rest
        else .error .wrongUsage

/-- Reads the arguments. -/
def parse (arguments : List String) : Except ArgumentFault FormatArguments :=
  parseFrom defaultBlocks defaultBlockSize none arguments

end FormatArguments

/-! ### Mounting a volume -/

/-- What to mount where. -/
structure MountArguments where
  image : String
  mountPoint : String
  options : Mount.Options
  blockSize : UInt32
  deriving DecidableEq, Repr

namespace MountArguments

/-- Reads the arguments that are left, the ones before them being read already. -/
def parseFrom (options : Mount.Options) (blockSize : UInt32) (positional : List String) :
    List String → Except ArgumentFault MountArguments
  | [] =>
    match positional with
    | [image, mountPoint] => .ok { image, mountPoint, options, blockSize }
    | _ => .error .wrongUsage
  | argument :: rest =>
    if argument = "--rw" then
      parseFrom { options with readWrite := true } blockSize positional rest
    else if argument = "--allow-other" then
      parseFrom { options with allowOther := true } blockSize positional rest
    else
      match valueOf? "--blocksize=" argument with
      | some value => do
        let blockSize ← numberOf "--blocksize" value
        parseFrom options blockSize positional rest
      | none =>
        if isOption argument then .error (.unknownOption argument)
        else parseFrom options blockSize (positional ++ [argument]) rest

/-- Reads the arguments. -/
def parse (arguments : List String) : Except ArgumentFault MountArguments :=
  parseFrom ⟨false, false⟩ defaultBlockSize [] arguments

end MountArguments

end ChainFs.Tool
