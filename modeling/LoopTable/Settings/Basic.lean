import LoopTable.Memory

/-!
# Settings of an analysis

Which processor an analysis is for, and in which memory blocks it finds its image and its table.
-/

namespace LoopTable

/-- The processor that is analysed unless something else is set. -/
def processorName : String := "brainfuck"

/-- The settings of an analysis. -/
structure Settings where
  /-- The processor whose programs are analysed. -/
  processor : String
  /-- The block that holds the image. -/
  imageBlock : String
  /-- The block that receives the table. -/
  tableBlock : String
  deriving DecidableEq

/-- The settings where nothing is set. -/
def Settings.standard : Settings :=
  ⟨processorName, imageBlockName, tableBlockName⟩

end LoopTable
