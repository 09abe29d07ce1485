import LoopTable.Word
import LoopTable.Fault

/-!
# File trees

A `FileTree` is the content of a file system: files and directories, each at a place. A place is
the list of names that leads to it from the top directory. A path is a text, and says step by step
how to get to a place: from the top if it starts with a slash, else from the working directory.

* `FileTree.locate` follows a path to a place; every step has to start in a directory.
* `FileTree.read` gives the content of the file at a path, and `FileTree.write` makes a file with
  some content there.
-/

namespace LoopTable

/-- What stands at a place. -/
inductive Entry
  | file (content : Bytes)
  | directory
  deriving DecidableEq

/-- The names that lead to a file or directory from the top. -/
abbrev Place := List String

/-- Files and directories by place. -/
structure FileTree where
  /-- What stands at each place; the working directory and those that it lies in need not be
  listed. -/
  entries : List (Place × Entry)
  /-- The place of the working directory. -/
  home : Place
  deriving DecidableEq

/-! ## Paths -/

namespace Path

/-- The greatest number of bytes in one name. -/
def maxName : Nat := 255

/-- The greatest number of bytes in a path. -/
def maxLength : Nat := 4095

/-- The names between the slashes of a text; there may be empty ones. -/
def splitNames : List Char → List (List Char)
  | [] => [[]]
  | c :: rest =>
    match splitNames rest with
    | [] => [[c]]
    | first :: others => if c = '/' then [] :: first :: others else (c :: first) :: others

/-- The names of a path, from left to right. A path that could not be handed to a file system has
none. -/
def names (path : String) : Except Fault (List String) :=
  if path.toList.contains '\x00' then
    .error .nulInPath
  else if path.isEmpty then
    .error .noSuchFile
  else if maxLength < path.utf8ByteSize then
    .error .nameTooLong
  else
    .ok ((splitNames path.toList).map String.ofList)

/-- The names of a path without the empty ones at its end, and whether there were such. -/
def trimEnd (names : List String) : List String × Bool :=
  let trimmed := (names.reverse.dropWhile (·.isEmpty)).reverse
  (trimmed, trimmed.length != names.length)

end Path

/-! ## Trees -/

namespace FileTree

/-- A tree with nothing but an empty working directory. -/
def emptyAt (home : Place) : FileTree := ⟨[], home⟩

/-- What stands at a place. -/
def entry? (tree : FileTree) (place : Place) : Option Entry :=
  if place.isPrefixOf tree.home then some .directory
  else (tree.entries.find? (·.1 == place)).map (·.2)

/-- Puts something at a place, instead of what stood there. -/
def set (tree : FileTree) (place : Place) (entry : Entry) : FileTree :=
  { tree with entries := (place, entry) :: tree.entries.filter (·.1 != place) }

/-- Takes one step of a path from a place, which has to be a directory. The directory above the top
is the top. -/
def enter (tree : FileTree) (place : Place) (name : String) : Except Fault Place :=
  match tree.entry? place with
  | none => .error .noSuchFile
  | some (.file _) => .error .notDirectory
  | some .directory =>
    if name = "" ∨ name = "." then .ok place
    else if name = ".." then .ok place.dropLast
    else if Path.maxName < name.utf8ByteSize then .error .nameTooLong
    else .ok (place ++ [name])

/-- Where the names of a path start. A path that starts with a slash has an empty name first. -/
def start (tree : FileTree) (names : List String) : Place :=
  if names.head? = some "" then [] else tree.home

/-- The place that the names of a path lead to. There need not be anything there. -/
def locate (tree : FileTree) (names : List String) : Except Fault Place :=
  names.foldlM tree.enter (tree.start names)

/-- The content of the file at a path. -/
def read (tree : FileTree) (path : String) : Except Fault Bytes := do
  let place ← tree.locate (← Path.names path)
  match tree.entry? place with
  | none => throw .noSuchFile
  | some .directory => throw .isDirectory
  | some (.file content) => return content

/-- The place of a file to be made at a path, in a directory that is there. -/
def placeFor (tree : FileTree) (path : String) : Except Fault Place := do
  let (names, endsInSlash) := Path.trimEnd (← Path.names path)
  match names.getLast? with
  | none => throw .isDirectory
  | some last =>
    let parent ← tree.locate names.dropLast
    -- entering the parent checks that it is a directory, whatever is entered next
    let _ ← tree.enter parent "."
    if endsInSlash ∨ last = "." ∨ last = ".." then
      throw .isDirectory
    let place ← tree.enter parent last
    match tree.entry? place with
    | some .directory => throw .isDirectory
    | _ => return place

/-- The tree with a file of some content at a path, instead of the file that was there. -/
def write (tree : FileTree) (path : String) (content : Bytes) : Except Fault FileTree := do
  let place ← tree.placeFor path
  return tree.set place (.file content)

end FileTree

end LoopTable
