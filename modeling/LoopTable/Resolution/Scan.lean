import LoopTable.Instruction
import LoopTable.Region
import LoopTable.Pending
import LoopTable.Progress
import LoopTable.Log.Record

/-!
# Resolving branch destinations

One scan over an image, from left to right, writes a destination for every loop instruction into a
table of words. For a loop opened at `o` and closed at `c`, the word of `c` becomes `o`, since the
end of a loop goes back to its start, and the word of `o` becomes `c + 1`, since a loop that is
skipped goes on behind its end. The words of all other instructions are left alone.

* `resolve` scans any readable region into any writable one under any monitor. It stops at the
  first thing that goes wrong, and what it has written by then stays.
* `Event` is one thing the scan did: a call on the monitor or on a region, or a log record. An
  `Outcome` lists all of them in order, next to the result and the final states.
* `branchTable` is the table of an image whose other words are zero.
-/

namespace LoopTable

/-- What a successful scan has counted. -/
structure Statistics where
  /-- The number of instructions scanned. -/
  instructions : UInt64
  /-- The number of loops resolved. -/
  pairs : UInt64
  /-- The greatest number of loops open at one time. -/
  maxDepth : Nat
  deriving DecidableEq

/-- One thing that a scan does. -/
inductive Event
  /-- The monitor is told the amount of work. -/
  | started (total : UInt64)
  /-- The monitor is polled and gives its answer. -/
  | polled (cancelled : Bool)
  /-- The monitor is told of work done. -/
  | advanced (n : UInt64)
  /-- A byte of the image is asked for. -/
  | read (offset : UInt64)
  /-- Bytes are sent to the table. -/
  | put (offset : UInt64) (bytes : List UInt8)
  /-- A record is logged. -/
  | logged (record : Record)
  deriving DecidableEq

/-- The offset and the bytes that an event sends to the table, if it does. -/
def Event.put? : Event → Option (UInt64 × List UInt8)
  | .put offset bytes => some (offset, bytes)
  | _ => none

/-- The state of a scan, over table states `σ` and monitor states `μ`. -/
structure Scan (σ μ : Type) where
  /-- The table as far as it is written. -/
  table : σ
  /-- The monitor. -/
  monitor : μ
  /-- The loops that are open. -/
  pending : Pending
  /-- The number of loops resolved. -/
  pairs : UInt64
  /-- All that the scan has done. -/
  events : Array Event

/-- A step of a scan, which changes its state and may end it. -/
abbrev ScanM (σ μ : Type) := EStateM ResolutionError (Scan σ μ)

namespace Scan

variable {σ μ : Type}

/-- Before anything is done. -/
def initial (table : σ) (monitor : μ) : Scan σ μ :=
  ⟨table, monitor, .empty, 0, #[]⟩

/-- Notes one thing that is done. -/
def note (event : Event) : ScanM σ μ Unit :=
  modify fun s => { s with events := s.events.push event }

/-- Tells the monitor the amount of work. -/
def start (m : Monitor μ) (total : UInt64) : ScanM σ μ Unit := do
  note (.started total)
  modify fun s => { s with monitor := m.start total s.monitor }

/-- Polls the monitor, and ends the scan if it says so. -/
def poll (m : Monitor μ) : ScanM σ μ Unit := do
  let cancelled := m.isCancelled (← get).monitor
  note (.polled cancelled)
  if cancelled then throw .cancelled

/-- Tells the monitor that one instruction more is in hand. -/
def advance (m : Monitor μ) : ScanM σ μ Unit := do
  note (.advanced 1)
  modify fun s => { s with monitor := m.advance 1 s.monitor }

/-- Reads a byte of the image. -/
def read (image : Readable) (offset : UInt64) : ScanM σ μ UInt8 := do
  note (.read offset)
  match image.read offset with
  | .ok byte => return byte
  | .error fault => throw (.memory fault)

/-- Writes bytes into the table. -/
def put (w : Writable σ) (offset : UInt64) (bytes : List UInt8) : ScanM σ μ Unit := do
  note (.put offset bytes)
  let answer ← modifyGet fun ⟨table, monitor, pending, pairs, events⟩ =>
    let (answer, table) := w.put offset bytes table
    (answer, ⟨table, monitor, pending, pairs, events⟩)
  match answer with
  | .ok () => return ()
  | .error fault => throw (.memory fault)

/-- Writes the destination of the instruction at `address`, if it fits into a word. -/
def putDestination (w : Writable σ) (address destination : UInt64) : ScanM σ μ Unit := do
  if destination > Word.maxDestination then
    throw (.unencodable address destination)
  put w (address * Word.size) (Word.encode destination.toUInt16)

/-- Opens a loop. -/
def openLoop (address : UInt64) : ScanM σ μ Unit :=
  modify fun ⟨table, monitor, pending, pairs, events⟩ =>
    ⟨table, monitor, pending.push address, pairs, events⟩

/-- Takes the innermost open loop, if there is one. -/
def takePending : ScanM σ μ (Option UInt64) :=
  modifyGet fun ⟨table, monitor, pending, pairs, events⟩ =>
    let (innermost, pending) := pending.pop
    (innermost, ⟨table, monitor, pending, pairs, events⟩)

/-- Counts a loop whose two words are written. -/
def countPair : ScanM σ μ Unit :=
  modify fun s => { s with pairs := s.pairs + 1 }

/-- Closes the innermost open loop: the word of its end first, then the word of its start. -/
def closeLoop (w : Writable σ) (address : UInt64) : ScanM σ μ Unit := do
  match ← takePending with
  | none =>
    note (.logged (.strayClose address))
    throw (.unmatched (some address))
  | some opening =>
    putDestination w address opening
    putDestination w opening (address + 1)
    countPair
    note (.logged (.pairResolved opening address))

/-- Scans the instruction at one address. -/
def visit (image : Readable) (w : Writable σ) (m : Monitor μ) (address : UInt64) :
    ScanM σ μ Unit := do
  poll m
  advance m
  let byte ← read image address
  if byte = openByte then
    openLoop address
  else if byte = closeByte then
    closeLoop w address

/-- Scans `n` instructions from an address on. -/
def visitAll (image : Readable) (w : Writable σ) (m : Monitor μ) : Nat → UInt64 → ScanM σ μ Unit
  | 0, _ => return ()
  | n + 1, address => do
    visit image w m address
    visitAll image w m n (address + 1)

/-- Ends a scan that has come to the end of the image. -/
def conclude (instructions : UInt64) : ScanM σ μ Statistics := do
  let s ← get
  match s.pending.oldest? with
  | some oldest =>
    note (.logged (.leftOpen s.pending.depth oldest))
    throw (.unmatched (some oldest))
  | none =>
    note (.logged (.scanFinished s.pairs s.pending.maxDepth))
    return ⟨instructions, s.pairs, s.pending.maxDepth⟩

/-- A whole scan. -/
def whole (image : Readable) (w : Writable σ) (m : Monitor μ) : ScanM σ μ Statistics := do
  start m image.size
  note (.logged (.scanStarted image.size))
  visitAll image w m image.size.toNat 0
  conclude image.size

end Scan

/-- How a scan ended: its result, the final states, and all that it did. -/
structure Outcome (σ μ : Type) where
  /-- What the scan counted, or why it failed. -/
  result : Except ResolutionError Statistics
  /-- The table as the scan left it. -/
  table : σ
  /-- The monitor as the scan left it. -/
  monitor : μ
  /-- All that the scan did, in order. -/
  events : List Event

namespace Outcome

variable {σ μ : Type}

/-- The records that the scan logged, in order. -/
def records (o : Outcome σ μ) : List Record :=
  o.events.filterMap fun
    | .logged record => some record
    | _ => none

/-- The calls the scan made on the monitor and the regions, in order. -/
def calls (o : Outcome σ μ) : List Event :=
  o.events.filter fun
    | .logged _ => false
    | _ => true

/-- The writes the scan asked for, in order. -/
def puts (o : Outcome σ μ) : List (UInt64 × List UInt8) :=
  o.events.filterMap Event.put?

/-- The outcome of a scan from the way its last step ended. -/
def ofResult : EStateM.Result ResolutionError (Scan σ μ) Statistics → Outcome σ μ
  | .ok statistics s => ⟨.ok statistics, s.table, s.monitor, s.events.toList⟩
  | .error cause s => ⟨.error cause, s.table, s.monitor, s.events.toList⟩

end Outcome

/-- Resolves an image into a table. Nothing is called if the table has fewer words than the image
has instructions. -/
def resolve {σ μ : Type} (image : Readable) (w : Writable σ) (m : Monitor μ) (table : σ)
    (monitor : μ) : Outcome σ μ :=
  let tableSize := w.size table
  if tableSize / Word.size < image.size then
    ⟨.error (.tableTooSmall image.size tableSize), table, monitor, []⟩
  else
    .ofResult ((Scan.whole image w m).run (.initial table monitor))

/-- The table of an image: two bytes for each instruction, which are zero where the instruction is
not part of a loop. -/
def branchTable (image : Bytes) : Except ResolutionError Bytes :=
  let outcome := resolve (.ofBytes image) .bytes .silent (Bytes.zeros (2 * image.size)) ()
  outcome.result.map fun _ => outcome.table

end LoopTable
