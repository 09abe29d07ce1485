import LoopTable.Resolution.Error

/-!
# Log records

Everything the library and its command report while they work is a `Record`. A record is kept as
the fact it states; its level, the component it comes from and its text are functions of it.
-/

namespace LoopTable

/-- The severity of a record, the gravest first. -/
inductive Level
  | error
  | warn
  | info
  | debug
  | trace
  deriving DecidableEq

namespace Level

/-- The place of a level in the order of severity, the gravest being 1. -/
def rank : Level → Nat
  | error => 1
  | warn => 2
  | info => 3
  | debug => 4
  | trace => 5

/-- The name of a level as it stands in a log. -/
def name : Level → String
  | error => "ERROR"
  | warn => "WARN"
  | info => "INFO"
  | debug => "DEBUG"
  | trace => "TRACE"

end Level

/-- The part of the program that a record comes from. -/
inductive Component
  | resolver
  | analyzer
  | assembler
  | command
  deriving DecidableEq

/-- The name of a component as it stands in a log. -/
def Component.name : Component → String
  | resolver => "bf_bdest::analysis::resolver"
  | analyzer => "bf_bdest::analysis::analyzer"
  | assembler => "bf_bdest::bytecode::assembler"
  | command => "bf_bdest"

/-- The name under which the analysis of a program reports. -/
def analyzerName : String :=
  "Brainfuck Branch Destination Resolver"

/-- A fact that is reported. -/
inductive Record
  /-- A scan of so many instructions begins. -/
  | scanStarted (instructions : UInt64)
  /-- Both words of a loop stand in the table. -/
  | pairResolved (opening closing : UInt64)
  /-- A loop is closed that was never opened. -/
  | strayClose (address : UInt64)
  /-- So many loops were left open at the end, the first of them at `oldest`. -/
  | leftOpen (count : Nat) (oldest : UInt64)
  /-- A scan ended well. -/
  | scanFinished (pairs : UInt64) (maxDepth : Nat)
  /-- An analysis ended well. -/
  | analysisDone (pairs instructions : UInt64)
  /-- An analysis was stopped on request. -/
  | analysisCancelled
  /-- An analysis failed. -/
  | analysisFailed (cause : ResolutionError)
  /-- A source file was assembled. -/
  | assembled (instructions : Nat) (path : String)
  /-- How far the scan of a command came. -/
  | progress (reached total : UInt64)
  /-- A command has written its table. -/
  | tableWritten (path : String)
  /-- A command failed, for the reason given. -/
  | commandFailed (reason : String)
  deriving DecidableEq

namespace Record

/-- The severity of a record. -/
def level : Record → Level
  | scanStarted _ | scanFinished .. | progress .. => .debug
  | pairResolved .. => .trace
  | strayClose _ | leftOpen .. => .warn
  | analysisDone .. | analysisCancelled | assembled .. | tableWritten _ => .info
  | analysisFailed _ | commandFailed _ => .error

/-- The component that a record comes from. -/
def component : Record → Component
  | scanStarted _ | pairResolved .. | strayClose _ | leftOpen .. | scanFinished .. => .resolver
  | analysisDone .. | analysisCancelled | analysisFailed _ => .analyzer
  | assembled .. => .assembler
  | progress .. | tableWritten _ | commandFailed _ => .command

/-- The text of a record. -/
def text : Record → String
  | scanStarted instructions =>
    let count := instructions.toNat
    s!"Résolution des branchements sur {count} instructions"
  | pairResolved opening closing =>
    let first := Numeral.hex opening.toNat
    let last := Numeral.hex closing.toNat
    s!"Paire [0x{first}, 0x{last}]"
  | strayClose address =>
    let place := Numeral.hex address.toNat
    s!"']' sans '[' correspondant à 0x{place}"
  | leftOpen count oldest =>
    let place := Numeral.hex oldest.toNat
    s!"{count} '[' non fermé(s), le plus ancien à 0x{place}"
  | scanFinished pairs maxDepth =>
    let count := pairs.toNat
    s!"{count} paires résolues (profondeur max {maxDepth})"
  | analysisDone pairs instructions =>
    let count := pairs.toNat
    let total := instructions.toNat
    s!"{analyzerName}: {count} paires résolues sur {total} instructions"
  | analysisCancelled => s!"{analyzerName}: analyse annulée"
  | analysisFailed cause => s!"{analyzerName}: " ++ cause.message
  | assembled instructions path => s!"{instructions} instructions assemblées depuis {path}"
  | progress reached total =>
    let done := reached.toNat
    let whole := total.toNat
    s!"Progression: {done}/{whole}"
  | tableWritten path => s!"Table bdest écrite dans {path}"
  | commandFailed reason => reason

end Record

end LoopTable
