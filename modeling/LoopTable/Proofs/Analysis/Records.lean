import LoopTable.Proofs.Analysis.Basic
import LoopTable.Proofs.Resolution.Records

/-!
# The log of an analysis

An analysis logs what its scan logs, and then one record of its own (`records_analyze`). Together
with what the log of a scan tells, this says of every record what it stands for
(`log_tells_what_was_written`).
-/

namespace LoopTable

/-- What an analysis itself logs of its resolution. -/
def Record.ofResolution : Except ResolutionError Statistics → Record
  | .ok statistics => .analysisDone statistics.pairs statistics.instructions
  | .error .cancelled => .analysisCancelled
  | .error cause => .analysisFailed cause

theorem Record.component_ofResolution (result : Except ResolutionError Statistics) :
    (ofResolution result).component = .analyzer := by
  cases result with
  | ok => rfl
  | error cause => cases cause <;> rfl

section Conclude

variable {μ : Type} (result : Except ResolutionError Statistics) (program : Program) (monitor : μ)
  (log : MessageLog) (records : List Record)

theorem Analysis.records_conclude :
    (conclude result program monitor log records).records = records ++ [.ofResolution result] := by
  cases result with
  | ok => rfl
  | error cause => cases cause <;> rfl

/-- An analysis that is done or was cancelled only informs of it; any other failure is an error. -/
theorem Analysis.level_ofResolution :
    let own := Record.ofResolution result
    let done := conclude result program monitor log records
    (own.level = .info ∧ (done.result = .ok true ∨ done.result = .error .cancelled)) ∨
      (own.level = .error ∧ done.result = .ok false) := by
  cases result with
  | ok => exact Or.inl ⟨rfl, Or.inl rfl⟩
  | error cause =>
    cases cause with
    | cancelled => exact Or.inl ⟨rfl, Or.inr rfl⟩
    | tableTooSmall | unmatched | unencodable | memory | missingBlock | sharedBlock =>
      exact Or.inr ⟨rfl, rfl⟩

end Conclude

section Analyze

variable {μ : Type} (settings : Settings) (m : Monitor μ) (program : Program) (monitor : μ)
  (log : MessageLog)

/-- The records of the scan behind an analysis. There are none if the analysis is refused its
blocks. -/
def Settings.scanRecords : List Record :=
  match program.memory.split settings.imageBlock settings.tableBlock with
  | .error _ => []
  | .ok split =>
    (resolve (.ofBytes split.source.bytes) .bytes m split.target.bytes monitor).records

/-- An analysis logs what its scan logs, and then one record of its own. -/
theorem records_analyze :
    (analyze settings m program monitor log).records =
      settings.scanRecords m program monitor ++
        [.ofResolution (settings.resolution m program monitor)] := by
  cases hsplit : program.memory.split settings.imageBlock settings.tableBlock with
  | error cause =>
    rw [analyze_of_split_error m monitor log hsplit, Analysis.records_conclude,
      Settings.scanRecords, Settings.resolution, hsplit]
    rfl
  | ok split =>
    rw [analyze_of_split m monitor log hsplit, Analysis.records_conclude,
      Settings.scanRecords, Settings.resolution, hsplit]
    rfl

end Analyze

/-- **Records.** Over any regions and under any monitor, the log of a scan tells what was written. An
analysis logs what its scan logs, or nothing if it is refused its blocks, and then one record of its
own: an information if it is done or was cancelled, and an error otherwise. -/
theorem log_tells_what_was_written {σ μ : Type} (region : Readable) (w : Writable σ)
    (m : Monitor μ) (table : σ) (monitor : μ) (settings : Settings) (program : Program)
    (log : MessageLog) :
    (resolve region w m table monitor).LogTells region w table ∧
    let blocks := program.memory.split settings.imageBlock settings.tableBlock
    let done := analyze settings m program monitor log
    ∃ scan own, done.records = scan ++ [own] ∧
      (∀ cause, blocks = .error cause → scan = []) ∧
      (∀ split, blocks = .ok split → scan =
        (resolve (.ofBytes split.source.bytes) .bytes m split.target.bytes monitor).records) ∧
      own.component = .analyzer ∧
      ((own.level = .info ∧ (done.result = .ok true ∨ done.result = .error .cancelled)) ∨
        (own.level = .error ∧ done.result = .ok false)) := by
  refine ⟨logTells_resolve region w m table monitor, settings.scanRecords m program monitor,
    .ofResolution (settings.resolution m program monitor),
    records_analyze settings m program monitor log, fun cause hsplit => ?_, fun split hsplit => ?_,
    Record.component_ofResolution _, ?_⟩
  · rw [Settings.scanRecords, hsplit]
  · rw [Settings.scanRecords, hsplit]
  · obtain ⟨program', monitor', records, heq⟩ := analyze_eq_conclude m monitor log settings program
    rw [heq]
    exact Analysis.level_ofResolution _ program' monitor' log records

/-- The same region, refusing untouched what is sent to one offset. -/
def Writable.refusing {σ : Type} (region : Writable σ) (refused : UInt64) (fault : Fault) :
    Writable σ :=
  { region with
    put := fun offset data held =>
      if offset = refused then (.error fault, held) else region.put offset data held }

/-- A table refuses the first of its words only. Then the word of the end is accepted and that of the
start is not, and so the log says nothing of the loop. The analysis of the same loop between two
blocks logs it. -/
theorem log_tells_what_was_written_refused_start :
    let w := Writable.bytes.refusing 0 .truncatedTable
    let outcome := resolve (.ofBytes #[6, 7]) w .silent (Bytes.zeros 4) ()
    let done := analyze .standard .silent (.ofImage processorName #[6, 7] 2) () .empty
    outcome.LogTells (.ofBytes #[6, 7]) w (Bytes.zeros 4) ∧
      outcome.result = .error (.memory .truncatedTable) ∧
      outcome.puts = [(2, [0, 0]), (0, [2, 0])] ∧ outcome.records = [.scanStarted 2] ∧
      ∃ own, done.records = [.scanStarted 2, .pairResolved 0 1, .scanFinished 1 1] ++ [own] ∧
        own.level = .info := by
  obtain ⟨htells, scan, own, hrecords, -, hscan, -, hlevel⟩ :=
    log_tells_what_was_written (.ofBytes #[6, 7]) (Writable.bytes.refusing 0 .truncatedTable)
      .silent (Bytes.zeros 4) () .standard (.ofImage processorName #[6, 7] 2) .empty
  refine ⟨htells, rfl, by decide, by decide, own, ?_, ?_⟩
  · rw [hrecords, hscan _ rfl]
    rfl
  · rcases hlevel with ⟨hinfo, -⟩ | ⟨-, hfailed⟩
    · exact hinfo
    · cases hfailed

end LoopTable
