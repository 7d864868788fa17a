import Std.Data.HashMap.Basic

/-!
# Inode numbers

The kernel speaks of nodes by number, a volume by path. A path gets the next number when it is first
seen and keeps it as long as the volume is mounted, so the kernel can go on using what it was told.

Two maps are kept beside each other, one from numbers to paths and one from paths to numbers, and a
counter of the numbers handed out. That the maps are inverse to each other and that the counter is
above all numbers is up to the steps that change them:

* `Inodes.initial` — only the root is known, as number 1;
* `Inodes.path?`, `Inodes.number?` — from number to path and back;
* `Inodes.assign` — the number of a path, a new one if need be.
-/

namespace ChainFs.Mount

/-- The inode numbers handed out so far. -/
structure Inodes where
  /-- What each number stands for. -/
  paths : Std.HashMap Nat String
  /-- The number of each path that was seen. -/
  numbers : Std.HashMap String Nat
  /-- The number that the next new path will get. -/
  nextNumber : Nat

namespace Inodes

/-- The number of the root. -/
def root : Nat :=
  1

/-- Before any request. -/
def initial : Inodes where
  paths := (∅ : Std.HashMap Nat String).insert root "/"
  numbers := (∅ : Std.HashMap String Nat).insert "/" root
  nextNumber := root + 1

/-- The path a number was handed out for. -/
def path? (inodes : Inodes) (number : Nat) : Option String :=
  inodes.paths[number]?

/-- The number of a path that was seen before. -/
def number? (inodes : Inodes) (path : String) : Option Nat :=
  inodes.numbers[path]?

/-- The number of a path, and the table with it. -/
def assign (inodes : Inodes) (path : String) : Nat × Inodes :=
  match inodes.number? path with
  | some number => (number, inodes)
  | none =>
    (inodes.nextNumber, {
      paths := inodes.paths.insert inodes.nextNumber path
      numbers := inodes.numbers.insert path inodes.nextNumber
      nextNumber := inodes.nextNumber + 1 })

end Inodes

end ChainFs.Mount
