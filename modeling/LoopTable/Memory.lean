import LoopTable.Region
import LoopTable.Resolution.Error

/-!
# Memory blocks and programs

A program is a processor name and a memory, and a memory is a list of named blocks of bytes in the
order in which they were added.

* `Memory.get?` finds a block by name and `Memory.put` writes into it; `Memory.add` refuses a name
  that is taken.
* `Memory.split` picks the two blocks of an analysis, one to read and one to write.
* `Program.withBlocks` and `Program.ofImage` lay out an image beside an empty table for it.
-/

namespace LoopTable

/-- A named run of bytes, loaded at a start address. -/
structure Block where
  /-- The name of the block. -/
  name : String
  /-- The address of its first byte. -/
  start : UInt64
  /-- Its content. -/
  bytes : Bytes
  deriving DecidableEq

namespace Block

/-- A block of zero bytes. -/
def zeroed (name : String) (start : UInt64) (size : Nat) : Block :=
  ⟨name, start, .zeros size⟩

/-- Writes bytes into the block, as into plain bytes. -/
def put (block : Block) (offset : UInt64) (data : List UInt8) : Except Fault Unit × Block :=
  match block with
  | ⟨name, start, bytes⟩ =>
    let (answer, bytes) := bytes.put offset data
    (answer, ⟨name, start, bytes⟩)

end Block

/-- A block, which claims the true size of its bytes. -/
def Writable.block : Writable Block where
  size := fun block => UInt64.ofNat block.bytes.size
  put := fun offset data block => block.put offset data

/-- The memory blocks of a program, in the order in which they were added. -/
structure Memory where
  /-- The blocks. -/
  blocks : List Block
  deriving DecidableEq

/-- The two blocks of an analysis. -/
structure Split where
  /-- The block to read. -/
  source : Block
  /-- The position of the block to write. -/
  place : Nat
  /-- The block to write. -/
  target : Block
  deriving DecidableEq

namespace Memory

/-- No blocks. -/
def empty : Memory := ⟨[]⟩

/-- The first block of a name. -/
def get? (memory : Memory) (name : String) : Option Block :=
  memory.blocks.find? (·.name == name)

/-- Adds a block behind all others, unless its name is taken. -/
def add (memory : Memory) (block : Block) : Except Fault Memory :=
  match memory.get? block.name with
  | some _ => .error (.blockExists block.name)
  | none => .ok ⟨memory.blocks ++ [block]⟩

/-- Puts a block in the place of the one at a position. -/
def replace (memory : Memory) (place : Nat) (block : Block) : Memory :=
  ⟨memory.blocks.set place block⟩

/-- Writes bytes into the first block of a name; there is no answer if there is no such block. -/
def put (memory : Memory) (name : String) (offset : UInt64) (data : List UInt8) :
    Option (Except Fault Unit) × Memory :=
  match memory.blocks.findIdx? (·.name == name), memory.get? name with
  | some place, some block =>
    let (answer, block) := block.put offset data
    (some answer, memory.replace place block)
  | _, _ => (none, memory)

/-- The last block of a name, with its position. -/
def last? (name : String) : List Block → Option (Nat × Block)
  | [] => none
  | block :: blocks =>
    match last? name blocks with
    | some (place, found) => some (place + 1, found)
    | none => if block.name = name then some (0, block) else none

/-- The two blocks of an analysis that reads `source` and writes `target`. They must be two, and
both must be there. -/
def split (memory : Memory) (source target : String) : Except ResolutionError Split :=
  if source = target then
    .error (.sharedBlock target)
  else
    match last? source memory.blocks, last? target memory.blocks with
    | some (_, read), some (place, written) => .ok ⟨read, place, written⟩
    | none, _ => .error (.missingBlock source)
    | some _, none => .error (.missingBlock target)

/-- Writes bytes into the block that a split has picked to write. -/
def putTarget (memory : Memory) (split : Split) (offset : UInt64) (data : List UInt8) :
    Except Fault Unit × Memory :=
  let (answer, target) := split.target.put offset data
  (answer, memory.replace split.place target)

end Memory

/-- What is analysed: a memory, and the processor that its image is for. -/
structure Program where
  /-- The name of the processor. -/
  processor : String
  /-- The memory. -/
  memory : Memory
  deriving DecidableEq

/-- The usual name of the block that holds the image. -/
def imageBlockName : String := "rom"

/-- The usual name of the block that holds the table. -/
def tableBlockName : String := "bdest"

namespace Program

/-- A program without memory. -/
def new (processor : String) : Program :=
  ⟨processor, .empty⟩

/-- An image at address zero, and behind it a table with room for `slots` words. -/
def withBlocks (processor imageBlock : String) (image : Bytes) (tableBlock : String)
    (slots : Nat) : Program :=
  let table := Block.zeroed tableBlock (UInt64.ofNat image.size) (2 * slots)
  ⟨processor, ⟨[⟨imageBlock, 0, image⟩, table]⟩⟩

/-- As `withBlocks`, under the usual names. -/
def ofImage (processor : String) (image : Bytes) (slots : Nat) : Program :=
  withBlocks processor imageBlockName image tableBlockName slots

end Program

end LoopTable
