import ChainFs.Error

/-!
# Paths

Paths are texts with slashes between the names. Only the names between the slashes matter to where
a path leads, so slashes at either end or next to each other change nothing.

* `Path.components` — the names of a path;
* `Path.splitLast` — a path to a new entry as the path of its directory and its name;
* `Path.child`, `Path.parent` — one step down and one step up, on the texts themselves.

There is no current directory and nothing that leads upwards. A single dot and two dots are texts
like any other here, only that no entry can be given such a name.
-/

namespace ChainFs.Path

/-- The names of a path, in order. -/
def components (path : String) : List String :=
  ((path.toList.splitOn '/').filter (· ≠ [])).map String.ofList

/-- The text behind the last slash, and the text in front of it if there is one. -/
def splitAtLastSlash (path : List Char) : Option (List Char) × List Char :=
  let reversed := path.reverse
  let name := (reversed.takeWhile (· ≠ '/')).reverse
  match reversed.dropWhile (· ≠ '/') with
  | [] => (none, name)
  | _ :: before => (some before.reverse, name)

/-- The path of a parent from the text in front of the last slash. -/
def parentText : Option (List Char) → String
  | none | some [] => "/"
  | some before => String.ofList before

/-- Splits the path of a new entry into the path of its directory and its name. Slashes at the end
do not count; a path without any name has no such parts. -/
def splitLast (path : String) : Except Error (String × String) :=
  match (path.toList.reverse.dropWhile (· = '/')).reverse with
  | [] => .error (.invalidName path)
  | trimmed =>
    let (before, name) := splitAtLastSlash trimmed
    .ok (parentText before, String.ofList name)

/-- The path of an entry of a directory. -/
def child (parent name : String) : String :=
  if parent = "/" then "/" ++ name else parent ++ "/" ++ name

/-- The path in front of the last slash, and the root where there is none. -/
def parent (path : String) : String :=
  parentText (splitAtLastSlash path.toList).1

end ChainFs.Path
