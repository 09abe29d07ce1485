import LoopTable.Analysis
import LoopTable.Command.Help
import LoopTable.Log.Filter
import LoopTable.Log.Plain
import LoopTable.Storage.Files

/-!
# Running the command

A call reads and writes files through a `Storage`, and everything else about it is pure. What the
command tells meanwhile is a list of lines: plain messages, and log records, which a filter may
hide.

* `tableOf` is what an image resolves to under settings.
* `Job.run` does a job, and `run` carries out a whole call. A `Transcript` is what is seen of it.
-/

namespace LoopTable.Command

/-! ## Lines and failures -/

/-- A line that the command tells. -/
inductive Line
  | message (text : String)
  | logged (record : Record)
  deriving DecidableEq

/-- Why a job fails. -/
inductive Failure
  /-- A source file cannot be assembled. -/
  | assembly (fault : Fault)
  /-- The file at a path cannot be read, written or made sense of. -/
  | file (path : String) (fault : Fault)
  /-- The image is for another processor than the settings. -/
  | wrongProcessor (given expected : String)
  /-- The analysis was cancelled. -/
  | stopped (cause : ResolutionError)
  /-- The analysis of the image at a path failed. -/
  | analysis (path : String)
  /-- The block of the table is gone. -/
  | noTable (name : String)
  deriving DecidableEq

/-- The wording of a failure. -/
def Failure.message : Failure → String
  | assembly fault => fault.message
  | file path fault => s!"{path}: " ++ fault.message
  | wrongProcessor given expected => s!"Processeur non supporté: {given} (attendu: {expected})"
  | stopped cause => cause.message
  | analysis path => s!"Échec de l'analyse de {path}"
  | noTable name => s!"Bloc mémoire introuvable: {name}"

/-- What comes of a part of a job, and the lines told meanwhile. -/
abbrev Told (α : Type) := Except Failure α × List Line

/-! ## Jobs -/

/-- The messages of a failed analysis, with the instruction at fault if it is known. -/
def complaints (log : MessageLog) : List Line :=
  let place := match log.errorAddress with
    | none => []
    | some address =>
      let digits := Numeral.padLeft '0' 4 (Numeral.hex address.toNat)
      [.message s!"Instruction fautive: 0x{digits}"]
  log.messages.map .message ++ place

/-- What the image of a path is resolved to, for a processor and under settings: the bytes of its
table. -/
def tableOf (settings : Settings) (processor path : String) (image : Bytes) : Told Bytes :=
  let program := Program.withBlocks processor settings.imageBlock image settings.tableBlock
    image.size
  if settings.canAnalyze program then
    let (token, pool) := TokenPool.empty.issue
    let analysis := analyze settings .task program (.new token, pool) .empty
    let progress := analysis.monitor.1
    let told := analysis.records.map .logged
    let toldMore := told ++ [.logged (.progress progress.reached progress.total)]
    match analysis.result with
    | .error cause => (.error (.stopped cause), told)
    | .ok false => (.error (.analysis path), toldMore ++ complaints analysis.log)
    | .ok true =>
      match analysis.program.memory.get? settings.tableBlock with
      | none => (.error (.noTable settings.tableBlock), toldMore)
      | some block => (.ok block.bytes, toldMore)
  else
    (.error (.wrongProcessor processor settings.processor), [])

variable {m : Type → Type} [Monad m]

/-- The settings of a job: those of a file if one is named. -/
def settingsOf (s : Storage m) (path : Option String) : m (Except Failure Settings) := do
  match path with
  | none => return .ok .standard
  | some path =>
    match ← s.readSettings path with
    | .ok settings => return .ok settings
    | .error fault => return .error (.file path fault)

/-- Writes the table that an image resolves to, if there is one. -/
def writeTold (s : Storage m) (path : String) (told : Told Bytes) : m (Told Unit) := do
  match told with
  | (.error failure, lines) => return (.error failure, lines)
  | (.ok table, lines) =>
    match ← s.writeTable path table with
    | .error fault => return (.error (.file path fault), lines)
    | .ok () => return (.ok (), lines ++ [.logged (.tableWritten path)])

/-- Does a job. -/
def Job.run (s : Storage m) : Job → m (Told Unit)
  | .assemble source image => do
    let (result, records) ← s.assembleFile source image
    match result with
    | .ok _ => return (.ok (), records.map .logged)
    | .error fault => return (.error (.assembly fault), records.map .logged)
  | .resolve image table settings processor => do
    match ← settingsOf s settings with
    | .error failure => return (.error failure, [])
    | .ok settings =>
      match ← s.readImage image with
      | .error fault => return (.error (.file image fault), [])
      | .ok bytes =>
        writeTold s table (tableOf settings (processor.getD processorName) image bytes)

/-! ## Calls -/

/-- What is seen of a call. -/
structure Transcript where
  /-- The exit status. -/
  status : Nat
  /-- The lines of the output. -/
  output : List String
  /-- The lines that were told. -/
  told : List Line
  deriving DecidableEq

/-- Whether a line is shown under a filter. -/
def Line.isShown (filter : Filter) : Line → Bool
  | .message _ => true
  | .logged record => filter.shows record

/-- A line as it is written, with its end. A record has a stamp in front of it and its level in five
columns, and is written as plain text; a message is written as it is. -/
def Line.written (stamp : String) : Line → String
  | .message text => text ++ "\n"
  | .logged record =>
    let level := Numeral.padRight 5 record.level.name
    let component := record.component.name
    let text := record.text
    plainText s!"{stamp} {level} {component}: {text}\n"

/-- The filter of a call, and warnings about the text that changes it. -/
def filterOf (verbose : Bool) (text : Option String) : Filter × List String :=
  let filter := Filter.ofThreshold (some (if verbose then .debug else .info))
  match text with
  | none => (filter, [])
  | some text => filter.update text

/-- What is seen of a job that has been done. -/
def transcriptOf (verbose : Bool) (filterText : Option String) (told : Told Unit) : Transcript :=
  let (filter, warnings) := filterOf verbose filterText
  let warned := warnings.map fun w => .message s!"warning: {w}, ignoring it"
  match told with
  | (.ok (), lines) => ⟨0, [], warned ++ lines.filter (·.isShown filter)⟩
  | (.error failure, lines) =>
    let lines := lines ++ [.logged (.commandFailed failure.message)]
    ⟨1, [], warned ++ lines.filter (·.isShown filter)⟩

/-- Carries out a call with its arguments, and a text that changes which records are shown. -/
def run (s : Storage m) (arguments : List String) (filterText : Option String) :
    m Transcript := do
  match Request.ofArguments arguments with
  | .error e => return ⟨2, [], (explanationOfError e).map .message⟩
  | .ok (.help of) => return ⟨0, explanationFor of, []⟩
  | .ok .version => return ⟨0, [versionText], []⟩
  | .ok (.run verbose job) => return transcriptOf verbose filterText (← job.run s)

end LoopTable.Command
