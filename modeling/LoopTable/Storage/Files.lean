import LoopTable.Instruction
import LoopTable.Log.Record
import LoopTable.Settings.Text
import LoopTable.Storage.FileTree

/-!
# Images, tables and settings on storage

The library reads and writes whole files, through a `Storage` that serves both in some monad. A
table is stored as its bytes, an image as its bytes, a source text and settings as UTF-8 text.

* `Storage.tree` is the storage whose state is a `FileTree`.
* `Storage.readTable` and `Storage.writeTable` accept whole words only; a table that is refused is
  not written at all.
* `Storage.assembleFile` assembles one file into another.
-/

namespace LoopTable

/-- Access to whole files, in a monad. -/
structure Storage (m : Type → Type) where
  /-- The content of the file at a path. -/
  read : String → m (Except Fault Bytes)
  /-- Makes a file of some content at a path. -/
  write : String → Bytes → m (Except Fault Unit)

/-- The text of a file's content. -/
def textOf (content : Bytes) : Except Fault String :=
  match String.fromUTF8? ⟨content⟩ with
  | some text => .ok text
  | none => .error .notText

namespace Storage

/-- Access to a tree of files, which is the state. -/
def tree : Storage (StateM FileTree) where
  read := fun path files => (files.read path, files)
  write := fun path content files =>
    match files.write path content with
    | .ok files => (.ok (), files)
    | .error fault => (.error fault, files)

variable {m : Type → Type} [Monad m]

/-- Reads an image. -/
def readImage (s : Storage m) (path : String) : m (Except Fault Bytes) :=
  s.read path

/-- Reads a table, which has to be a whole number of words. -/
def readTable (s : Storage m) (path : String) : m (Except Fault Bytes) := do
  match ← s.read path with
  | .error fault => return .error fault
  | .ok table => return if Word.isWhole table then .ok table else .error .truncatedTable

/-- Writes a table, which has to be a whole number of words. -/
def writeTable (s : Storage m) (path : String) (table : Bytes) : m (Except Fault Unit) :=
  if Word.isWhole table then s.write path table
  else return .error (.unevenTable table.size)

/-- Reads a text. -/
def readText (s : Storage m) (path : String) : m (Except Fault String) := do
  match ← s.read path with
  | .error fault => return .error fault
  | .ok content => return textOf content

/-- Reads settings. -/
def readSettings (s : Storage m) (path : String) : m (Except Fault Settings) := do
  match ← s.readText path with
  | .error fault => return .error fault
  | .ok text => return Settings.ofText text

/-- Assembles the source text at one path and writes its image to another. The result is the number
of instructions, with the record of it. -/
def assembleFile (s : Storage m) (source image : String) :
    m (Except Fault Nat × List Record) := do
  match ← s.readText source with
  | .error fault => return (.error fault, [])
  | .ok text =>
    let bytes := (assemble text.toList).toArray
    match ← s.write image bytes with
    | .error fault => return (.error fault, [])
    | .ok () => return (.ok bytes.size, [.assembled bytes.size source])

end Storage

end LoopTable
