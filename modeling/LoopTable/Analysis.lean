import LoopTable.Settings.Basic
import LoopTable.Resolution.Scan

/-!
# Analysing a program

An analysis fills the table block of a program with the destinations of its image block. A failed
analysis is told to the user through a `MessageLog`; only a cancelled one is an error to the
caller.

* `Settings.canAnalyze` says whether a program is for the processor of the settings.
* `analyze` runs an analysis, and `Analysis` is everything that comes of it.
-/

namespace LoopTable

/-! ## Messages for the user -/

/-- The messages of failed analyses, and the first address that one of them points at. -/
structure MessageLog where
  /-- The messages, in the order in which they came. -/
  messages : List String
  /-- The address of the first failure that has one. -/
  errorAddress : Option UInt64
  deriving DecidableEq

namespace MessageLog

/-- No messages. -/
def empty : MessageLog := ⟨[], none⟩

/-- Adds the message of a failure; an address that is known already stays. -/
def append (log : MessageLog) (cause : ResolutionError) : MessageLog where
  messages := log.messages ++ [cause.message]
  errorAddress := log.errorAddress.or cause.address?

/-- Whether there are messages. -/
def hasErrors (log : MessageLog) : Bool :=
  !log.messages.isEmpty

end MessageLog

/-! ## Analyses -/

/-- What an analysis is for, in one sentence. -/
def analyzerDescription : String :=
  "Computes branch destinations for control flow instructions ([ and ]) " ++
    "and writes them to bdest memory"

/-- Whether a program is for the processor of the settings. -/
def Settings.canAnalyze (settings : Settings) (program : Program) : Bool :=
  program.processor == settings.processor

/-- How an analysis ended. -/
structure Analysis (μ : Type) where
  /-- Whether the table is filled, unless the analysis was cancelled. -/
  result : Except ResolutionError Bool
  /-- The program after it. -/
  program : Program
  /-- The monitor after it. -/
  monitor : μ
  /-- The messages after it. -/
  log : MessageLog
  /-- The records that were logged, in order. -/
  records : List Record

namespace Analysis

variable {μ : Type}

/-- The last part of an analysis: the result of the resolution is reported, and its failure is
told to the user unless it is a cancellation. -/
def conclude (result : Except ResolutionError Statistics) (program : Program) (monitor : μ)
    (log : MessageLog) (records : List Record) : Analysis μ :=
  match result with
  | .ok statistics =>
    let record := Record.analysisDone statistics.pairs statistics.instructions
    ⟨.ok true, program, monitor, log, records ++ [record]⟩
  | .error .cancelled =>
    ⟨.error .cancelled, program, monitor, log, records ++ [.analysisCancelled]⟩
  | .error cause =>
    ⟨.ok false, program, monitor, log.append cause, records ++ [.analysisFailed cause]⟩

end Analysis

/-- Fills the table block of the settings with the destinations of their image block. -/
def analyze {μ : Type} (settings : Settings) (m : Monitor μ) (program : Program) (monitor : μ)
    (log : MessageLog) : Analysis μ :=
  match program.memory.split settings.imageBlock settings.tableBlock with
  | .error cause => .conclude (.error cause) program monitor log []
  | .ok ⟨source, place, target⟩ =>
    let outcome := resolve (.ofBytes source.bytes) .bytes m target.bytes monitor
    let memory := program.memory.replace place { target with bytes := outcome.table }
    .conclude outcome.result { program with memory } outcome.monitor log outcome.records

end LoopTable
