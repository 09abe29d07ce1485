import LoopTable.Proofs.Analysis.Basic
import LoopTable.Proofs.Memory.Selection

/-!
# What the user is told

A `MessageLog` gathers the failures of any number of analyses. `Analysis.Reports` says what one
analysis has to answer and to tell about its resolution, and `MessageLog.after` is a log after a
sequence of reports.

The main result is `analyses_report`: every analysis does report its resolution so, and a log holds
exactly the messages of the failures reported, with the first address among them.
-/

namespace LoopTable

/-! ## Where causes come from -/

/-- The two blocks cannot be picked, or the table has no room for the words of the image. -/
inductive ResolutionError.Premature : ResolutionError → Prop
  | sharedBlock {name : String} : Premature (.sharedBlock name)
  | missingBlock {name : String} : Premature (.missingBlock name)
  | tableTooSmall {imageSize tableSize : UInt64} : Premature (.tableTooSmall imageSize tableSize)

/-- Two blocks are refused for such a cause. -/
theorem Memory.premature_of_split {memory : Memory} {source target : String}
    {cause : ResolutionError} (h : memory.split source target = .error cause) :
    cause.Premature := by
  have hpicked := memory.picked_split source target
  rw [h] at hpicked
  cases hpicked with
  | shared => exact .sharedBlock
  | noSource | noTarget => exact .missingBlock

/-- A scan that fails with such a cause has called nothing. -/
theorem resolve_of_premature {σ μ : Type} {image : Readable} {w : Writable σ} {m : Monitor μ}
    {table : σ} {monitor : μ} {cause : ResolutionError} (hcause : cause.Premature)
    (h : (resolve image w m table monitor).result = .error cause) :
    (resolve image w m table monitor).table = table ∧
      (resolve image w m table monitor).monitor = monitor := by
  have hended := ended_resolve image w m table monitor
  generalize resolve image w m table monitor = outcome at hended h ⊢
  cases hended with
  | tooSmall => exact ⟨rfl, rfl⟩
  | leftOpen =>
    cases h
    cases hcause
  | finished => cases h
  | stopped _ _ _ hvisited =>
    cases h
    cases hvisited with
    | cancelled | unreadable | stray => cases hcause
    | closed _ _ _ hsettled => cases hsettled <;> cases hcause

/-! ## One analysis -/

/-- What an analysis of a program has to answer and to tell about its resolution. -/
structure Analysis.Reports {μ : Type} (analysis : Analysis μ) (settings : Settings) (m : Monitor μ)
    (program : Program) (monitor : μ) (log : MessageLog) : Prop where
  /-- It is an error exactly if the resolution was cancelled, and then it says so. -/
  error_iff : ∀ cause, analysis.result = .error cause ↔
    cause = .cancelled ∧ settings.resolution m program monitor = .error .cancelled
  /-- It is done exactly if the blocks were picked and the scan succeeded. -/
  true_iff : analysis.result = .ok true ↔
    ∃ split statistics,
      program.memory.split settings.imageBlock settings.tableBlock = .ok split ∧
      (resolve (.ofBytes split.source.bytes) .bytes m split.target.bytes monitor).result =
        .ok statistics
  /-- It is given up exactly if the resolution failed for any other cause. -/
  false_iff : analysis.result = .ok false ↔
    ∃ cause, cause ≠ .cancelled ∧ settings.resolution m program monitor = .error cause
  /-- An analysis that is not given up tells the user nothing. -/
  log_eq : analysis.result ≠ .ok false → analysis.log = log
  /-- One that is given up tells the cause. -/
  log_append : ∀ cause, cause ≠ .cancelled →
    settings.resolution m program monitor = .error cause → analysis.log = log.append cause
  /-- Nothing happens if the blocks cannot be picked or the table is too small. -/
  untouched : ∀ cause, cause.Premature → settings.resolution m program monitor = .error cause →
    analysis.program = program ∧ analysis.monitor = monitor

section Analyze

variable {μ : Type} (settings : Settings) (m : Monitor μ) (program : Program) (monitor : μ)
  (log : MessageLog)

theorem resolution_eq_ok_iff (statistics : Statistics) :
    settings.resolution m program monitor = .ok statistics ↔
      ∃ split, program.memory.split settings.imageBlock settings.tableBlock = .ok split ∧
        (resolve (.ofBytes split.source.bytes) .bytes m split.target.bytes monitor).result =
          .ok statistics := by
  rw [Settings.resolution]
  cases program.memory.split settings.imageBlock settings.tableBlock with
  | error cause =>
    constructor
    · intro h
      cases h
    · rintro ⟨_, h, -⟩
      cases h
  | ok split =>
    constructor
    · intro h
      exact ⟨split, rfl, h⟩
    · rintro ⟨_, h, hok⟩
      obtain rfl := Except.ok.inj h
      exact hok

/-- The program and the monitor stay as they are if the scan does not begin. -/
theorem analyze_of_premature {cause : ResolutionError} (hcause : cause.Premature)
    (h : settings.resolution m program monitor = .error cause) :
    (analyze settings m program monitor log).program = program ∧
      (analyze settings m program monitor log).monitor = monitor := by
  cases hsplit : program.memory.split settings.imageBlock settings.tableBlock with
  | error refusal =>
    rw [analyze_of_split_error m monitor log hsplit]
    exact ⟨Analysis.program_conclude .., Analysis.monitor_conclude ..⟩
  | ok split =>
    rw [Settings.resolution, hsplit] at h
    obtain ⟨htable, hmonitor⟩ := resolve_of_premature hcause h
    obtain ⟨place, hsplits⟩ := Memory.splits_of_split hsplit
    rw [analyze_of_split m monitor log hsplit, Analysis.program_conclude,
      Analysis.monitor_conclude, htable, hmonitor, Memory.replace_self hsplits.target_at]
    exact ⟨rfl, rfl⟩

theorem reports_analyze :
    (analyze settings m program monitor log).Reports settings m program monitor log := by
  obtain ⟨after, monitor', records, heq⟩ := analyze_eq_conclude m monitor log settings program
  refine ⟨fun cause => ?_, ?_, ?_, fun hne => ?_, fun cause hcause h => ?_,
    fun cause hcause h => analyze_of_premature settings m program monitor log hcause h⟩
  · rw [heq, Analysis.result_conclude_eq_error_iff]
  · rw [heq, Analysis.result_conclude_eq_true_iff, exists_comm]
    exact exists_congr fun statistics => resolution_eq_ok_iff settings m program monitor statistics
  · rw [heq, Analysis.result_conclude_eq_false_iff]
  · rw [heq] at hne ⊢
    exact Analysis.log_conclude_of_ne_false _ _ _ _ _ hne
  · rw [heq, h]
    exact Analysis.log_conclude_of_error _ _ _ _ hcause

/-- Such a cause is told, and nothing else is done. -/
theorem given_up_of_premature {cause : ResolutionError} (hcause : cause.Premature)
    (h : settings.resolution m program monitor = .error cause) :
    let analysis := analyze settings m program monitor log
    analysis.result = .ok false ∧ analysis.program = program ∧ analysis.monitor = monitor ∧
      analysis.log = log.append cause := by
  have hne : cause ≠ .cancelled := by
    rintro rfl
    cases hcause
  have hreports := reports_analyze settings m program monitor log
  obtain ⟨hprogram, hmonitor⟩ := hreports.untouched cause hcause h
  exact ⟨hreports.false_iff.2 ⟨cause, hne, h⟩, hprogram, hmonitor, hreports.log_append cause hne h⟩

end Analyze

/-! ## A sequence of reports -/

/-- Something that a log is handed to: an analysis of any program, or a failure from elsewhere. -/
inductive Report : Type 1
  | analysis {μ : Type} (settings : Settings) (m : Monitor μ) (program : Program) (monitor : μ)
  | failure (cause : ResolutionError)

/-- The failure that a report is about: the one handed over, or the one for which an analysis is
given up. -/
def Report.cause? : Report → Option ResolutionError
  | .failure cause => some cause
  | .analysis settings m program monitor =>
    match settings.resolution m program monitor with
    | .ok _ | .error .cancelled => none
    | .error cause => some cause

namespace MessageLog

/-- A log after one report. -/
def told (log : MessageLog) : Report → MessageLog
  | .analysis settings m program monitor => (analyze settings m program monitor log).log
  | .failure cause => log.append cause

/-- A log after a sequence of reports. -/
def after (log : MessageLog) (reports : List Report) : MessageLog :=
  reports.foldl told log

@[simp] theorem after_cons (log : MessageLog) (report : Report) (reports : List Report) :
    log.after (report :: reports) = (log.told report).after reports := rfl

theorem after_append (log : MessageLog) (reports later : List Report) :
    log.after (reports ++ later) = (log.after reports).after later :=
  List.foldl_append

/-- A report that is about a failure adds it to the log, and any other one adds nothing. -/
theorem told_eq (log : MessageLog) (report : Report) :
    log.told report = (report.cause?.map log.append).getD log := by
  cases report with
  | failure cause => rfl
  | analysis settings m program monitor =>
    have hreports := reports_analyze settings m program monitor log
    rw [told, Report.cause?]
    cases hresolution : settings.resolution m program monitor with
    | ok statistics =>
      refine hreports.log_eq fun hfalse => ?_
      obtain ⟨cause, -, herror⟩ := hreports.false_iff.1 hfalse
      rw [hresolution] at herror
      cases herror
    | error cause =>
      by_cases hcause : cause = .cancelled
      · subst hcause
        refine hreports.log_eq fun hfalse => ?_
        obtain ⟨cause, hne, herror⟩ := hreports.false_iff.1 hfalse
        rw [hresolution] at herror
        exact hne (Except.error.inj herror).symm
      · rw [hreports.log_append cause hcause hresolution]
        cases cause <;> first | rfl | exact absurd rfl hcause

theorem messages_after (log : MessageLog) (reports : List Report) :
    (log.after reports).messages =
      log.messages ++ (reports.filterMap Report.cause?).map ResolutionError.message := by
  induction reports generalizing log with
  | nil => exact (List.append_nil _).symm
  | cons report reports ih =>
    rw [after_cons, ih, told_eq]
    cases hcause : report.cause? with
    | none => rw [List.filterMap_cons_none hcause]; rfl
    | some cause =>
      rw [List.filterMap_cons_some hcause]
      exact List.append_assoc ..

theorem errorAddress_after (log : MessageLog) (reports : List Report) :
    (log.after reports).errorAddress =
      log.errorAddress.or
        ((reports.filterMap Report.cause?).findSome? ResolutionError.address?) := by
  induction reports generalizing log with
  | nil => exact (Option.or_none ..).symm
  | cons report reports ih =>
    rw [after_cons, ih, told_eq]
    cases hcause : report.cause? with
    | none => rw [List.filterMap_cons_none hcause]; rfl
    | some cause =>
      rw [List.filterMap_cons_some hcause, List.findSome?_cons]
      show (log.errorAddress.or cause.address?).or _ = _
      rw [Option.or_assoc]
      cases cause.address? <;> rfl

end MessageLog

/-- **Outcomes and messages.** Every analysis answers and tells what comes of its resolution. The
failures that have an address are an unmatched end of a loop at a known instruction, and a
destination that does not fit into a word. After any sequence of reports the messages are those of
the failures reported, in order, and the address is that of the first failure that has one. Once
there is an address, it stays. -/
theorem analyses_report :
    (∀ {μ : Type} (settings : Settings) (m : Monitor μ) (program : Program) (monitor : μ)
        (log : MessageLog),
      (analyze settings m program monitor log).Reports settings m program monitor log) ∧
    (∀ (cause : ResolutionError) (address : UInt64),
      cause.address? = some address ↔
        cause = .unmatched (some address) ∨
          ∃ destination, cause = .unencodable address destination) ∧
    ∀ (log : MessageLog) (reports : List Report),
      let causes := reports.filterMap Report.cause?
      (log.after reports).messages = log.messages ++ causes.map ResolutionError.message ∧
      (log.after reports).errorAddress =
        log.errorAddress.or (causes.findSome? ResolutionError.address?) ∧
      ((log.after reports).errorAddress = none ↔
        log.errorAddress = none ∧ ∀ cause ∈ causes, cause.address? = none) ∧
      ∀ later address, (log.after reports).errorAddress = some address →
        (log.after (reports ++ later)).errorAddress = some address := by
  refine ⟨fun settings m program monitor log => reports_analyze settings m program monitor log,
    fun cause address => ResolutionError.address?_eq_some_iff, fun log reports => ?_⟩
  have haddress := log.errorAddress_after reports
  refine ⟨log.messages_after reports, haddress, ?_, fun later address h => ?_⟩
  · rw [haddress, Option.or_eq_none_iff, List.findSome?_eq_none_iff]
  · rw [MessageLog.after_append, MessageLog.errorAddress_after, h, Option.some_or]

/-- A failure without an address, a destination that does not fit, and an image with a stray end of
a loop. -/
theorem analyses_report_first_address :
    let stray : Report :=
      .analysis .standard .silent (Program.ofImage processorName #[2, 7] 2) ()
    let reports := [.failure (.missingBlock "rom"), .failure (.unencodable 3 65536), stray]
    (MessageLog.empty.after reports).messages =
        ["Bloc mémoire introuvable: rom",
          "Destination 0x10000 non encodable sur 16 bits (instruction 0x3)",
          "Unmatched branch at address 0x1"] ∧
      (MessageLog.empty.after reports).errorAddress = some 3 := by
  intro stray reports
  have hcauses : reports.filterMap Report.cause? =
      [.missingBlock "rom", .unencodable 3 65536, .unmatched (some 1)] := by rfl
  obtain ⟨-, hcarries, hreports⟩ := analyses_report
  have hthree : (ResolutionError.unencodable 3 65536).address? = some 3 :=
    (hcarries _ 3).2 (.inr ⟨65536, rfl⟩)
  obtain ⟨hmessages, haddress, -, -⟩ := hreports .empty reports
  rw [hmessages, haddress, hcauses]
  refine ⟨by decide +kernel, ?_⟩
  have hsome : (ResolutionError.unencodable 3 65536).address?.isSome = true := by
    rw [hthree]
    rfl
  rw [List.findSome?_cons_of_isNone rfl, List.findSome?_cons_of_isSome hsome, hthree]
  rfl

end LoopTable
