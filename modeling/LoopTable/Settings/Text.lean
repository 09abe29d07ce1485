import LoopTable.Settings.Basic
import LoopTable.Toml.Document

/-!
# Settings as text

Settings are read from a configuration text with the keys `processor`, `rom_block` and
`bdest_block`. A key that is missing keeps its standard value, and keys of other names are left
alone.
-/

namespace LoopTable.Settings

/-- The text of a key, or `standard` if the key is missing. There is none if the key holds
something other than text. -/
def textOf? (table : Toml.Table) (key standard : String) : Option String :=
  match table.get? key with
  | none => some standard
  | some (.string text) => some text
  | some _ => none

/-- The settings of a table. -/
def ofTable? (table : Toml.Table) : Option Settings :=
  return {
    processor := ← textOf? table "processor" standard.processor
    imageBlock := ← textOf? table "rom_block" standard.imageBlock
    tableBlock := ← textOf? table "bdest_block" standard.tableBlock }

/-- The settings that a text describes. -/
def ofText (text : String) : Except Fault Settings :=
  match (Toml.Table.ofText? text).bind ofTable? with
  | some settings => .ok settings
  | none => .error .invalidSettings

end LoopTable.Settings
