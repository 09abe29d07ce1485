import LoopTable.Analysis
import LoopTable.Proofs.Resolution.Footprint
import LoopTable.Proofs.Resolution.Watching

/-!
# The resolution behind an analysis

An analysis picks two blocks and scans one into the other. `Settings.resolution` is what comes of
both, before it is reported. The equations `analyze_of_split_error` and `analyze_of_split` take an
analysis apart, so that nothing else has to open its definition.
-/

namespace LoopTable

/-- The result of the resolution that an analysis reports: the blocks are picked, and one is scanned
into the other. -/
def Settings.resolution {μ : Type} (settings : Settings) (m : Monitor μ) (program : Program)
    (monitor : μ) : Except ResolutionError Statistics := do
  let split ← program.memory.split settings.imageBlock settings.tableBlock
  (resolve (.ofBytes split.source.bytes) .bytes m split.target.bytes monitor).result

/-! ## What is reported -/

namespace Analysis

variable {μ : Type} (result : Except ResolutionError Statistics) (program : Program) (monitor : μ)
  (log : MessageLog) (records : List Record)

@[simp] theorem program_conclude :
    (conclude result program monitor log records).program = program := by
  unfold conclude
  split <;> rfl

@[simp] theorem monitor_conclude :
    (conclude result program monitor log records).monitor = monitor := by
  unfold conclude
  split <;> rfl

/-- A cancellation is the only error, and it is the caller's to handle. -/
theorem result_conclude_eq_error_iff (cause : ResolutionError) :
    (conclude result program monitor log records).result = .error cause ↔
      cause = .cancelled ∧ result = .error .cancelled := by
  unfold conclude
  split <;> grind

theorem result_conclude_eq_true_iff :
    (conclude result program monitor log records).result = .ok true ↔
      ∃ statistics, result = .ok statistics := by
  unfold conclude
  split <;> grind

/-- The user is told of every other failure. -/
theorem result_conclude_eq_false_iff :
    (conclude result program monitor log records).result = .ok false ↔
      ∃ cause, cause ≠ .cancelled ∧ result = .error cause := by
  unfold conclude
  split <;> grind

theorem log_conclude_of_ne_false
    (h : (conclude result program monitor log records).result ≠ .ok false) :
    (conclude result program monitor log records).log = log := by
  revert h
  unfold conclude
  split <;> grind

theorem log_conclude_of_error {cause : ResolutionError} (hcause : cause ≠ .cancelled) :
    (conclude (.error cause) program monitor log records).log = log.append cause := by
  cases cause <;> first | rfl | exact absurd rfl hcause

end Analysis

/-! ## What is done -/

section Analyze

variable {μ : Type} {settings : Settings} {program : Program} (m : Monitor μ) (monitor : μ)
  (log : MessageLog)

/-- An analysis that is refused its blocks does nothing. -/
theorem analyze_of_split_error {cause : ResolutionError}
    (h : program.memory.split settings.imageBlock settings.tableBlock = .error cause) :
    analyze settings m program monitor log = .conclude (.error cause) program monitor log [] := by
  simp only [analyze, h]

/-- Otherwise it puts the scanned table in the place of the block picked for it. -/
theorem analyze_of_split {split : Split}
    (h : program.memory.split settings.imageBlock settings.tableBlock = .ok split) :
    let outcome := resolve (.ofBytes split.source.bytes) .bytes m split.target.bytes monitor
    let filled := { split.target with bytes := outcome.table }
    analyze settings m program monitor log =
      .conclude outcome.result { program with memory := program.memory.replace split.place filled }
        outcome.monitor log outcome.records := by
  simp only [analyze, h]

/-- What an analysis reports is its resolution. -/
theorem analyze_eq_conclude (settings : Settings) (program : Program) :
    ∃ program' monitor' records, analyze settings m program monitor log =
      .conclude (settings.resolution m program monitor) program' monitor' log records := by
  cases h : program.memory.split settings.imageBlock settings.tableBlock with
  | error cause =>
    refine ⟨program, monitor, [], ?_⟩
    rw [analyze_of_split_error m monitor log h, Settings.resolution, h]
    rfl
  | ok split =>
    rw [analyze_of_split m monitor log h, Settings.resolution, h]
    exact ⟨_, _, _, rfl⟩

/-- What a monitor keeps whatever it is told, it keeps in an analysis. -/
theorem monitor_analyze {m : Monitor μ} {holds : μ → Prop}
    (hstart : ∀ total s, holds s → holds (m.start total s))
    (hadvance : ∀ amount s, holds s → holds (m.advance amount s)) (settings : Settings)
    (program : Program) {monitor : μ} (h : holds monitor) (log : MessageLog) :
    holds (analyze settings m program monitor log).monitor := by
  cases hsplit : program.memory.split settings.imageBlock settings.tableBlock with
  | error cause =>
    rw [analyze_of_split_error m monitor log hsplit, Analysis.monitor_conclude]
    exact h
  | ok split =>
    rw [analyze_of_split m monitor log hsplit, Analysis.monitor_conclude]
    exact monitor_resolve hstart hadvance _ _ _ h

end Analyze

end LoopTable
