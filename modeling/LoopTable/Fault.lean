import LoopTable.Numeral

/-!
# Faults of memory and storage

A `Fault` is the cause of a failed access: to a byte region, to the set of memory blocks, or to a
file. `Fault.message` gives its wording and `Fault.kind` the class it belongs to.
-/

namespace LoopTable

/-- The class of a fault. Classes that only a device reports are known by name. -/
inductive FaultKind
  | notFound
  | alreadyExists
  | isADirectory
  | notADirectory
  | invalidName
  | invalidInput
  | invalidData
  | named (name : String)
  deriving DecidableEq

/-- The cause of a failed access. -/
inductive Fault
  /-- An access of `length` bytes at `offset` that does not fit into a region of `size` bytes. -/
  | outOfRegion (offset : UInt64) (length size : Nat)
  /-- A memory block of this name exists already. -/
  | blockExists (name : String)
  /-- A table to be written whose size is not a whole number of words. -/
  | unevenTable (size : Nat)
  /-- A stored table whose size is not a whole number of words. -/
  | truncatedTable
  /-- A file that was to be read as text and is not well-formed UTF-8. -/
  | notText
  /-- A text that does not describe settings. -/
  | invalidSettings
  /-- The path leads nowhere. -/
  | noSuchFile
  /-- The path leads to a directory where a file is needed. -/
  | isDirectory
  /-- The path goes through something that is not a directory. -/
  | notDirectory
  /-- The path holds a character that ends names. -/
  | nulInPath
  /-- The path, or one name in it, is longer than the file system allows. -/
  | nameTooLong
  /-- A failure that a device reports with a class and a wording of its own. -/
  | device (kind : FaultKind) (text : String)
  deriving DecidableEq

namespace Fault

/-- The class of a fault. -/
def kind : Fault → FaultKind
  | outOfRegion .. | unevenTable _ | nulInPath => .invalidInput
  | blockExists _ => .alreadyExists
  | truncatedTable | notText | invalidSettings => .invalidData
  | noSuchFile => .notFound
  | isDirectory => .isADirectory
  | notDirectory => .notADirectory
  | nameTooLong => .invalidName
  | device kind _ => kind

/-- The wording of a fault. -/
def message : Fault → String
  | outOfRegion offset length size =>
    let digits := Numeral.padLeft '0' 8 (Numeral.hexUpper offset.toNat)
    s!"Accès mémoire invalide: 0x{digits} (+{length} bytes) hors de la région de {size} bytes"
  | blockExists name => s!"Bloc mémoire déjà défini: {name}"
  | unevenTable size => s!"Taille de table bdest non alignée: {size} bytes"
  | truncatedTable => "Table bdest tronquée"
  | notText => "stream did not contain valid UTF-8"
  | invalidSettings => "Configuration invalide"
  | noSuchFile => "No such file or directory (os error 2)"
  | isDirectory => "Is a directory (os error 21)"
  | notDirectory => "Not a directory (os error 20)"
  | nulInPath => "file name contained an unexpected NUL byte"
  | nameTooLong => "File name too long (os error 36)"
  | device _ text => text

end Fault

end LoopTable
