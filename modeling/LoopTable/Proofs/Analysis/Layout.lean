import LoopTable.Proofs.Analysis.Basic
import LoopTable.Proofs.Resolution.BranchTable
import LoopTable.Proofs.Resolution.Cancellation

/-!
# An image laid out beside its table

`Program.withBlocks` lays out an image and an empty table under two names. If these differ, an
analysis scans the one into the other (`analyze_withBlocks`); if not, it is refused
(`analyze_withBlocks_self`).

With room for one word for each instruction, and a monitor that does not ask to stop, the analysis
makes the table of the image (`Analysis.Makes`): `makes_analyze` ties it to `branchTable`.
-/

namespace LoopTable

/-! ## Picking the blocks -/

theorem split_withBlocks (processor : String) {imageBlock tableBlock : String}
    (h : imageBlock ≠ tableBlock) (image : Bytes) (slots : Nat) :
    (Program.withBlocks processor imageBlock image tableBlock slots).memory.split imageBlock
        tableBlock =
      .ok ⟨⟨imageBlock, 0, image⟩, 1, .zeroed tableBlock (.ofNat image.size) (2 * slots)⟩ := by
  simp [Program.withBlocks, Memory.split, Memory.last?, Block.zeroed, h, h.symm]

section Analyze

variable {μ : Type} {settings : Settings} (processor : String) (image : Bytes) (slots : Nat)
  (m : Monitor μ) (monitor : μ) (log : MessageLog)

/-- An analysis of a fresh layout scans its image into a table of zeros. -/
theorem analyze_withBlocks (h : settings.imageBlock ≠ settings.tableBlock) :
    let program := Program.withBlocks processor settings.imageBlock image settings.tableBlock slots
    let outcome := resolve (.ofBytes image) .bytes m (.zeros (2 * slots)) monitor
    analyze settings m program monitor log =
      .conclude outcome.result
        ⟨processor, ⟨[⟨settings.imageBlock, 0, image⟩,
          ⟨settings.tableBlock, .ofNat image.size, outcome.table⟩]⟩⟩
        outcome.monitor log outcome.records := by
  intro program outcome
  have hsplit := split_withBlocks processor h image slots
  rw [analyze_of_split m monitor log hsplit]
  rfl

/-- A layout under one name twice is refused. -/
theorem analyze_withBlocks_self (h : settings.imageBlock = settings.tableBlock) :
    let program := Program.withBlocks processor settings.imageBlock image settings.tableBlock slots
    analyze settings m program monitor log =
      .conclude (.error (.sharedBlock settings.tableBlock)) program monitor log [] := by
  intro program
  have hsplit : program.memory.split settings.imageBlock settings.tableBlock =
      .error (.sharedBlock settings.tableBlock) := if_pos h
  exact analyze_of_split_error m monitor log hsplit

end Analyze

/-! ## Making the table -/

theorem Monitor.after_task (total : UInt64) (p : Progress) (pool : TokenPool) (n : Nat) :
    (Monitor.task.after total (p, pool) n).1.token = p.token ∧
      (Monitor.task.after total (p, pool) n).2 = pool := by
  induction n with
  | zero => exact ⟨rfl, rfl⟩
  | succ n ih => exact ih

/-- A task is not stopped unless its token has been cancelled. -/
theorem Monitor.quiet_task (total : UInt64) {p : Progress} {pool : TokenPool}
    (h : pool.isCancelled p.token = false) : Monitor.task.Quiet total (p, pool) := by
  intro n _
  obtain ⟨htoken, hpool⟩ := Monitor.after_task total p pool n
  show (Monitor.task.after total (p, pool) n).2.isCancelled
    (Monitor.task.after total (p, pool) n).1.token = false
  rw [htoken, hpool, h]

/-- An undisturbed scan into a fresh table does what makes the table of the image. -/
theorem resolve_eq_tableScan {μ : Type} {image : Bytes} {m : Monitor μ} {monitor : μ}
    (himage : 2 * image.size < UInt64.size) (hquiet : m.Quiet (.ofNat image.size) monitor) :
    let outcome := resolve (.ofBytes image) .bytes m (.zeros (2 * image.size)) monitor
    outcome.result = (tableScan image).result ∧ outcome.table = (tableScan image).table := by
  have hroom : HasRoom image (.zeros (2 * image.size)) := by
    constructor <;> simp [Bytes.zeros, himage]
  exact uncut_agree Writable.honest_bytes hroom (Monitor.quiet_silent _)
    (result_ne_cancelled hquiet _ _)

/-- An image without a table has an instruction at fault. -/
theorem exists_address_of_branchTable {image : Bytes} {cause : ResolutionError}
    (himage : 2 * image.size < UInt64.size) (h : branchTable image = .error cause) :
    (tableScan image).result = .error cause ∧ ∃ address, cause.address? = some address := by
  cases hresult : (tableScan image).result with
  | ok statistics =>
    rw [branchTable_eq, hresult] at h
    cases h
  | error cause' =>
    rw [branchTable_eq, hresult] at h
    obtain rfl := Except.error.inj h
    refine ⟨rfl, ?_⟩
    rcases (ending_tableScan himage).verdict.cause cause' hresult with ⟨a, rfl⟩ | ⟨a, v, rfl⟩
    · exact ⟨a, rfl⟩
    · exact ⟨a, rfl⟩

/-- What becomes of an analysis of a program with the image alone, by what `branchTable` says of the
image: the block of the table then holds its table, or the user is told why it has none. -/
inductive Analysis.Makes {μ : Type} (analysis : Analysis μ) (tableBlock : String)
    (log : MessageLog) : Except ResolutionError Bytes → Prop
  | table {table : Bytes} {block : Block} : analysis.result = .ok true →
      analysis.program.memory.get? tableBlock = some block → block.bytes = table →
      Makes analysis tableBlock log (.ok table)
  | failure {cause : ResolutionError} : analysis.result = .ok false →
      analysis.log = log.append cause → Makes analysis tableBlock log (.error cause)

/-- An undisturbed analysis of a fresh layout makes the table of its image. -/
theorem makes_analyze {μ : Type} {settings : Settings} {image : Bytes} {m : Monitor μ} {monitor : μ}
    (hapart : settings.imageBlock ≠ settings.tableBlock) (himage : 2 * image.size < UInt64.size)
    (hquiet : m.Quiet (.ofNat image.size) monitor) (processor : String) (log : MessageLog) :
    (analyze settings m (.withBlocks processor settings.imageBlock image settings.tableBlock
      image.size) monitor log).Makes settings.tableBlock log (branchTable image) := by
  obtain ⟨hresult, htable⟩ := resolve_eq_tableScan himage hquiet
  rw [analyze_withBlocks processor image image.size m monitor log hapart, hresult, htable]
  cases hbranch : branchTable image with
  | ok table =>
    obtain ⟨hbalanced, hnear, -⟩ := (branchTable_eq_ok_iff himage).1 hbranch
    obtain ⟨statistics, hok⟩ := (tableScan_ok_iff himage).2 ⟨hbalanced, hnear⟩
    rw [branchTable_eq, hok] at hbranch
    obtain rfl := Except.ok.inj hbranch
    rw [hok]
    have hget : Memory.get? ⟨[⟨settings.imageBlock, 0, image⟩,
        ⟨settings.tableBlock, .ofNat image.size, (tableScan image).table⟩]⟩ settings.tableBlock =
        some ⟨settings.tableBlock, .ofNat image.size, (tableScan image).table⟩ := by
      simp [Memory.get?, hapart]
    exact .table rfl hget rfl
  | error cause =>
    obtain ⟨herror, address, haddress⟩ := exists_address_of_branchTable himage hbranch
    have hcause : cause ≠ .cancelled := by
      rintro rfl
      cases haddress
    rw [herror]
    exact .failure ((Analysis.result_conclude_eq_false_iff _ _ _ _ _).2 ⟨cause, hcause, rfl⟩)
      (Analysis.log_conclude_of_error _ _ _ _ hcause)

end LoopTable
