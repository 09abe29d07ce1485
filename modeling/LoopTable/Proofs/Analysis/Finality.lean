import LoopTable.Proofs.Analysis.Messages
import LoopTable.Proofs.Progress
import LoopTable.Proofs.Resolution.Ending

/-!
# Analyses under a cancelled token

A scan polls before it does anything at an address. So one whose token is cancelled beforehand stops
before it writes anything (`resolve_of_cancelled`), unless it is refused before its first poll, or
has no address to poll at (`resolve_of_size_eq_zero`). `Analysis.AtOnce` says what that makes of an
analysis.

`Watched` is a program with the handles of those who have it analysed, and `Watched.Step` what can
happen to both. No step takes a cancellation back (`Watched.isCancelled_apply`).

The main result is `cancelled_token_is_final`.
-/

namespace LoopTable

/-! ## Scans that stop at once -/

section Resolve

variable {σ μ : Type} {image : Readable} {w : Writable σ} {m : Monitor μ} {table : σ} {monitor : μ}

/-- A scan of no instructions tells its monitor so, polls it nowhere and succeeds. -/
theorem resolve_of_size_eq_zero (hsize : image.size = 0) :
    let outcome := resolve image w m table monitor
    outcome.result = .ok ⟨0, 0, 0⟩ ∧ outcome.table = table ∧ outcome.monitor = m.start 0 monitor := by
  intro outcome
  have hlarge : ¬ w.size table / Word.size < image.size := by
    rw [hsize]
    exact UInt64.not_lt_zero
  have houtcome : outcome = .ofResult ((Scan.conclude 0).run (.begun image m table monitor)) := by
    show resolve image w m table monitor = _
    rw [resolve, if_neg hlarge, Scan.run_whole, hsize]
    rfl
  rw [houtcome, Scan.run_conclude]
  exact ⟨rfl, rfl, congrArg (m.start · monitor) hsize⟩

/-- A scan whose monitor asks to stop at once does nothing but to tell it the amount of work. -/
theorem resolve_of_cancelled (hlarge : ¬ w.size table / Word.size < image.size)
    (hsize : image.size ≠ 0)
    (hcancelled : m.isCancelled (m.start image.size monitor) = true) :
    let outcome := resolve image w m table monitor
    outcome.result = .error .cancelled ∧ outcome.table = table ∧
      outcome.monitor = m.start image.size monitor := by
  intro outcome
  have houtcome : outcome =
      .ofResult (.error .cancelled ((Scan.begun image m table monitor).noted (.polled true))) := by
    show resolve image w m table monitor = _
    rw [resolve, if_neg hlarge, Scan.run_whole]
    cases hn : image.size.toNat with
    | zero => exact absurd (UInt64.toNat_inj.1 hn) hsize
    | succ n =>
      have hpoll : m.isCancelled (Scan.begun image m table monitor).monitor = true := hcancelled
      rw [Scan.run_visitAll_succ, Scan.run_visit, if_pos hpoll]
  rw [houtcome]
  exact ⟨rfl, rfl, rfl⟩

end Resolve

/-! ## Analyses that stop at once -/

/-- The sizes of all blocks fit into 64 bits. -/
def Memory.Addressable (memory : Memory) : Prop :=
  ∀ block ∈ memory.blocks, block.bytes.size < UInt64.size

section Analyze

variable {μ : Type} {settings : Settings} {program : Program} {split : Split} (m : Monitor μ)
  (monitor : μ)

theorem Memory.Addressable.of_split (hsizes : program.memory.Addressable)
    (hsplit : program.memory.split settings.imageBlock settings.tableBlock = .ok split) :
    split.source.bytes.size < UInt64.size ∧ split.target.bytes.size < UInt64.size := by
  obtain ⟨_, hsplits⟩ := Memory.splits_of_split hsplit
  exact ⟨hsizes _ (List.mem_of_getElem? hsplits.source_at),
    hsizes _ (List.mem_of_getElem? hsplits.target_at)⟩

/-- Two blocks that cannot be picked are told to the user, and nothing else is done. -/
theorem analyze_refused {cause : ResolutionError}
    (hsplit : program.memory.split settings.imageBlock settings.tableBlock = .error cause)
    (log : MessageLog) :
    let analysis := analyze settings m program monitor log
    analysis.result = .ok false ∧ analysis.program = program ∧ analysis.monitor = monitor ∧
      analysis.log = log.append cause := by
  refine given_up_of_premature settings m program monitor log (Memory.premature_of_split hsplit) ?_
  rw [Settings.resolution, hsplit]
  rfl

/-- So is a table with fewer than two bytes for each byte of the image. -/
theorem analyze_tooSmall (hsizes : program.memory.Addressable)
    (hsplit : program.memory.split settings.imageBlock settings.tableBlock = .ok split)
    (hsmall : split.target.bytes.size < 2 * split.source.bytes.size) (log : MessageLog) :
    let analysis := analyze settings m program monitor log
    analysis.result = .ok false ∧ analysis.program = program ∧ analysis.monitor = monitor ∧
      analysis.log = log.append
        (.tableTooSmall (.ofNat split.source.bytes.size) (.ofNat split.target.bytes.size)) := by
  obtain ⟨hsource, htarget⟩ := hsizes.of_split hsplit
  have hresolve := Writable.honest_bytes.resolve_eq_of_lt hsource htarget hsmall m monitor
  refine given_up_of_premature settings m program monitor log .tableTooSmall ?_
  rw [Settings.resolution, hsplit]
  exact congrArg Outcome.result hresolve

/-- An analysis whose scan leaves the table as it was leaves the program as it was. -/
theorem analyze_of_table_eq
    (hsplit : program.memory.split settings.imageBlock settings.tableBlock = .ok split)
    (log : MessageLog) :
    let outcome := resolve (.ofBytes split.source.bytes) .bytes m split.target.bytes monitor
    outcome.table = split.target.bytes →
    analyze settings m program monitor log =
      .conclude outcome.result program outcome.monitor log outcome.records := by
  intro outcome htable
  obtain ⟨_, hsplits⟩ := Memory.splits_of_split hsplit
  have hsame : program.memory.replace split.place { split.target with bytes := outcome.table } =
      program.memory := by
    rw [htable]
    exact Memory.replace_self hsplits.target_at
  rw [analyze_of_split m monitor log hsplit]
  exact congrArg (fun memory => Analysis.conclude outcome.result { program with memory }
    outcome.monitor log outcome.records) hsame

/-- An analysis of an empty image succeeds without a poll. -/
theorem analyze_empty
    (hsplit : program.memory.split settings.imageBlock settings.tableBlock = .ok split)
    (hempty : split.source.bytes.size = 0) (log : MessageLog) :
    let analysis := analyze settings m program monitor log
    analysis.result = .ok true ∧ analysis.program = program ∧
      analysis.monitor = m.start 0 monitor ∧ analysis.log = log := by
  have hsize : (Readable.ofBytes split.source.bytes).size = 0 := congrArg UInt64.ofNat hempty
  obtain ⟨hresult, htable, hmonitor⟩ := @resolve_of_size_eq_zero _ _ _ Writable.bytes m
    split.target.bytes monitor hsize
  rw [analyze_of_table_eq m monitor hsplit log htable, hresult, hmonitor]
  exact ⟨rfl, rfl, rfl, rfl⟩

/-- An analysis whose monitor asks to stop at once is cancelled before it does anything. -/
theorem analyze_cancelled (hsizes : program.memory.Addressable)
    (hsplit : program.memory.split settings.imageBlock settings.tableBlock = .ok split)
    (hroom : 2 * split.source.bytes.size ≤ split.target.bytes.size)
    (hsize : split.source.bytes.size ≠ 0)
    (hcancelled : m.isCancelled (m.start (.ofNat split.source.bytes.size) monitor) = true)
    (log : MessageLog) :
    let analysis := analyze settings m program monitor log
    analysis.result = .error .cancelled ∧ analysis.program = program ∧
      analysis.monitor = m.start (.ofNat split.source.bytes.size) monitor ∧ analysis.log = log := by
  obtain ⟨hsource, htarget⟩ := hsizes.of_split hsplit
  have hlarge := Writable.honest_bytes.not_tooSmall
    (⟨hroom, htarget⟩ : HasRoom split.source.bytes (id split.target.bytes))
  have hsome : (Readable.ofBytes split.source.bytes).size ≠ 0 := by
    intro h
    have hzero := congrArg UInt64.toNat h
    rw [Readable.ofBytes, UInt64.toNat_ofNat_of_lt' hsource] at hzero
    exact hsize hzero
  obtain ⟨hresult, htable, hmonitor⟩ := resolve_of_cancelled hlarge hsome hcancelled
  rw [analyze_of_table_eq m monitor hsplit log htable, hresult, hmonitor]
  exact ⟨rfl, rfl, rfl, rfl⟩

end Analyze

/-- What comes of an analysis whose token was cancelled beforehand. Its checks come first, and are
told as ever; then it is cancelled at the first poll, if there is one. -/
structure Analysis.AtOnce (settings : Settings) (program : Program) (p : Progress)
    (pool : TokenPool) (log : MessageLog) (analysis : Analysis (Progress × TokenPool)) : Prop where
  /-- No byte is changed, and nothing else. -/
  program_eq : analysis.program = program
  /-- If the blocks cannot be picked, the user is told, and nothing the monitor. -/
  refused : ∀ cause,
    program.memory.split settings.imageBlock settings.tableBlock = .error cause →
    analysis.result = .ok false ∧ analysis.monitor = (p, pool) ∧ analysis.log = log.append cause
  /-- So it is if the table has fewer than two bytes for each byte of the image. -/
  tooSmall : ∀ split,
    program.memory.split settings.imageBlock settings.tableBlock = .ok split →
    split.target.bytes.size < 2 * split.source.bytes.size →
    analysis.result = .ok false ∧ analysis.monitor = (p, pool) ∧
      analysis.log = log.append
        (.tableTooSmall (.ofNat split.source.bytes.size) (.ofNat split.target.bytes.size))
  /-- An empty image is analysed, and the monitor told so. -/
  empty : ∀ split,
    program.memory.split settings.imageBlock settings.tableBlock = .ok split →
    split.source.bytes.size = 0 →
    analysis.result = .ok true ∧ analysis.monitor = (⟨0, 0, p.token⟩, pool) ∧ analysis.log = log
  /-- Every other analysis is cancelled, when the monitor knows the size of the image and nothing
  is done. -/
  cancelled : ∀ split,
    program.memory.split settings.imageBlock settings.tableBlock = .ok split →
    2 * split.source.bytes.size ≤ split.target.bytes.size → split.source.bytes.size ≠ 0 →
    analysis.result = .error .cancelled ∧
      analysis.monitor = (⟨.ofNat split.source.bytes.size, 0, p.token⟩, pool) ∧
      analysis.log = log

/-- An analysis whose token was cancelled beforehand stops at once. -/
theorem atOnce_analyze {settings : Settings} {program : Program} {p : Progress} {pool : TokenPool}
    (hsizes : program.memory.Addressable) (hcancelled : pool.isCancelled p.token = true)
    (log : MessageLog) :
    (analyze settings .task program (p, pool) log).AtOnce settings program p pool log where
  program_eq := by
    cases hsplit : program.memory.split settings.imageBlock settings.tableBlock with
    | error cause => exact (analyze_refused _ _ hsplit log).2.1
    | ok split =>
      by_cases hsmall : split.target.bytes.size < 2 * split.source.bytes.size
      · exact (analyze_tooSmall _ _ hsizes hsplit hsmall log).2.1
      · by_cases hempty : split.source.bytes.size = 0
        · exact (analyze_empty _ _ hsplit hempty log).2.1
        · exact (analyze_cancelled _ _ hsizes hsplit (Nat.le_of_not_lt hsmall) hempty hcancelled
            log).2.1
  refused := by
    intro cause hsplit
    obtain ⟨hresult, -, hrest⟩ := analyze_refused .task (p, pool) hsplit log
    exact ⟨hresult, hrest⟩
  tooSmall := by
    intro split hsplit hsmall
    obtain ⟨hresult, -, hrest⟩ := analyze_tooSmall .task (p, pool) hsizes hsplit hsmall log
    exact ⟨hresult, hrest⟩
  empty := by
    intro split hsplit hempty
    obtain ⟨hresult, -, hrest⟩ := analyze_empty .task (p, pool) hsplit hempty log
    exact ⟨hresult, hrest⟩
  cancelled := by
    intro split hsplit hroom hsize
    obtain ⟨hresult, -, hrest⟩ :=
      analyze_cancelled .task (p, pool) hsizes hsplit hroom hsize hcancelled log
    exact ⟨hresult, hrest⟩

/-! ## Histories of analyses -/

/-- A program, with the handles of those who have it analysed. -/
structure Watched where
  /-- The program. -/
  program : Program
  /-- The handles. -/
  handles : Handles

namespace Watched

/-- What can happen to a program and to the handles. -/
inductive Step
  /-- Something is done to the handles. -/
  | handle (step : Handles.Step)
  /-- The program is analysed, and a progress watches. -/
  | analyze (settings : Settings) (task : Nat) (log : MessageLog)

/-- Both after a step; a step on a handle that was never made does nothing. -/
def apply (w : Watched) : Step → Watched
  | .handle step => { w with handles := w.handles.apply step }
  | .analyze settings task log =>
    match w.handles.tasks[task]? with
    | none => w
    | some p =>
      let analysis := LoopTable.analyze settings .task w.program (p, w.handles.pool) log
      let (p, pool) := analysis.monitor
      let tasks := w.handles.tasks.setIfInBounds task p
      { program := analysis.program, handles := { w.handles with pool, tasks } }

/-- Both after a history of steps. -/
def run (w : Watched) (steps : List Step) : Watched :=
  steps.foldl apply w

@[simp] theorem run_cons (w : Watched) (step : Step) (steps : List Step) :
    w.run (step :: steps) = (w.apply step).run steps := rfl

/-- Every progress that watches an analysis of a history is on a token. -/
def AllOn (token : Token) : Watched → List Step → Prop
  | _, [] => True
  | w, .handle step :: steps => (w.apply (.handle step)).AllOn token steps
  | w, .analyze settings task log :: steps =>
    (∀ p, w.handles.tasks[task]? = some p → p.token = token) ∧
      (w.apply (.analyze settings task log)).AllOn token steps

variable {w : Watched} {token : Token}

/-- No step takes a cancellation back. -/
theorem isCancelled_apply (hcancelled : w.handles.pool.isCancelled token = true) (step : Step) :
    (w.apply step).handles.pool.isCancelled token = true := by
  cases step with
  | handle step => exact Handles.isCancelled_apply hcancelled step
  | analyze settings task log =>
    simp only [apply]
    cases w.handles.tasks[task]? with
    | none => exact hcancelled
    | some p =>
      -- a progress tells its token nothing
      exact @monitor_analyze _ .task (fun s => s.2.isCancelled token = true) (fun _ _ h => h)
        (fun _ _ h => h) settings w.program (p, w.handles.pool) hcancelled log

theorem isCancelled_run (hcancelled : w.handles.pool.isCancelled token = true)
    (steps : List Step) : (w.run steps).handles.pool.isCancelled token = true := by
  induction steps generalizing w with
  | nil => exact hcancelled
  | cons step steps ih => exact ih (isCancelled_apply hcancelled step)

/-- A step leaves the program alone if its analysis stops at once. -/
theorem program_apply_analyze (hsizes : w.program.memory.Addressable)
    (hcancelled : w.handles.pool.isCancelled token = true) (settings : Settings) {task : Nat}
    (htoken : ∀ p, w.handles.tasks[task]? = some p → p.token = token) (log : MessageLog) :
    (w.apply (.analyze settings task log)).program = w.program := by
  simp only [apply]
  cases hp : w.handles.tasks[task]? with
  | none => rfl
  | some p =>
    have hcancelled' : w.handles.pool.isCancelled p.token = true := htoken p hp ▸ hcancelled
    exact (atOnce_analyze hsizes hcancelled' log).program_eq

theorem program_run (hsizes : w.program.memory.Addressable)
    (hcancelled : w.handles.pool.isCancelled token = true) {steps : List Step}
    (hall : w.AllOn token steps) : (w.run steps).program = w.program := by
  induction steps generalizing w with
  | nil => rfl
  | cons step steps ih =>
    have hnext := isCancelled_apply hcancelled step
    cases step with
    | handle step => exact ih (w := w.apply (.handle step)) hsizes hnext hall
    | analyze settings task log =>
      obtain ⟨htoken, hall⟩ := hall
      have hprogram := program_apply_analyze hsizes hcancelled settings htoken log
      rw [run_cons, ih (hprogram.symm ▸ hsizes) hnext hall, hprogram]

theorem AllOn.append {before steps : List Step} (hall : w.AllOn token (before ++ steps)) :
    w.AllOn token before ∧ (w.run before).AllOn token steps := by
  induction before generalizing w with
  | nil => exact ⟨trivial, hall⟩
  | cons step before ih =>
    cases step with
    | handle step => exact ih hall
    | analyze settings task log =>
      obtain ⟨htoken, hall⟩ := hall
      obtain ⟨hbefore, hsteps⟩ := ih hall
      exact ⟨⟨htoken, hbefore⟩, hsteps⟩

end Watched

/-- **A cancelled token is final.** Let a token be cancelled. Whatever happens then to a program and
to any handles, the token stays cancelled.

If all analyses are watched by progresses on the token, no byte of the program changes, and each of
them stops at once. -/
theorem cancelled_token_is_final {w : Watched} {token : Token}
    (hcancelled : w.handles.pool.isCancelled token = true) (steps : List Watched.Step) :
    (w.run steps).handles.pool.isCancelled token = true ∧
    (w.program.memory.Addressable → w.AllOn token steps →
      (w.run steps).program = w.program ∧
      ∀ before settings task log after p, steps = before ++ .analyze settings task log :: after →
        (w.run before).handles.tasks[task]? = some p →
        let held := w.run before
        p.token = token ∧
          (analyze settings .task held.program (p, held.handles.pool) log).AtOnce settings w.program
            p held.handles.pool log) := by
  refine ⟨Watched.isCancelled_run hcancelled steps, fun hsizes hall =>
    ⟨Watched.program_run hsizes hcancelled hall, ?_⟩⟩
  rintro before settings task log after p rfl hp held
  obtain ⟨hbefore, htoken, -⟩ := hall.append
  have hprogram : held.program = w.program := Watched.program_run hsizes hcancelled hbefore
  have hheld : held.handles.pool.isCancelled token = true :=
    Watched.isCancelled_run hcancelled before
  obtain rfl := htoken p hp
  rw [hprogram]
  exact ⟨rfl, atOnce_analyze hsizes hheld log⟩

/-- A copy of a progress on a cancelled token is started and advanced before it watches an analysis,
which is cancelled all the same. -/
theorem cancelled_token_is_final_for_copies :
    let w : Watched := ⟨.ofImage processorName #[6, 7] 2, ⟨⟨#[true]⟩, #[0], #[.new 0]⟩⟩
    let before : List Watched.Step :=
      [.handle (.copyTask 0), .handle (.start 1 5), .handle (.advance 1 3)]
    let steps := before ++ [.analyze .standard 1 .empty]
    let held := w.run before
    let p : Progress := ⟨5, 3, 0⟩
    let analysis := analyze .standard .task held.program (p, held.handles.pool) .empty
    w.handles.pool.isCancelled 0 = true ∧ w.program.memory.Addressable ∧ w.AllOn 0 steps ∧
      held.handles.tasks[1]? = some p ∧
      (w.run steps).handles.pool.isCancelled 0 = true ∧ (w.run steps).program = w.program ∧
      analysis.result = .error .cancelled ∧
      analysis.monitor = (⟨2, 0, 0⟩, held.handles.pool) := by
  intro w before steps held p analysis
  have hcancelled : w.handles.pool.isCancelled 0 = true := rfl
  have hsizes : w.program.memory.Addressable := by
    intro block hblock
    rcases List.mem_cons.1 hblock with rfl | hblock
    · decide
    · obtain rfl := List.mem_singleton.1 hblock
      decide
  have hp : held.handles.tasks[1]? = some p := rfl
  have hall : w.AllOn 0 steps := by
    refine ⟨fun q hq => ?_, trivial⟩
    obtain rfl := Option.some.inj (hp.symm.trans hq)
    rfl
  obtain ⟨hstays, hfinal⟩ := cancelled_token_is_final hcancelled steps
  obtain ⟨hprogram, hcalls⟩ := hfinal hsizes hall
  obtain ⟨-, hatOnce⟩ := hcalls before .standard 1 .empty [] p rfl hp
  have hsplit : w.program.memory.split "rom" "bdest" = .ok ⟨⟨"rom", 0, #[6, 7]⟩, 1, _⟩ := rfl
  obtain ⟨hresult, hmonitor, -⟩ := hatOnce.cancelled _ hsplit (by decide) (by decide)
  exact ⟨hcancelled, hsizes, hall, hp, hstays, hprogram, hresult, hmonitor⟩

end LoopTable
