import LoopTable.Proofs.Analysis.Layout
import LoopTable.Proofs.Resolution.Healing

/-!
# Tables of any number of words

`branchTable` makes a table with one word for each instruction. A program may be laid out with room
for more words or for fewer, and under any two names.

* A scan takes no notice of bytes behind the words of its image (`resolve_append`), so an analysis
  with room for more words finds what `branchTable` finds, and leaves the zeros behind it alone
  (`analyze_withBlocks_of_le`).
* With room for fewer words it is given up before anything is done
  (`analyze_withBlocks_of_lt`).

The main result, `analyze_agrees_with_branchTable`, says both.
-/

namespace LoopTable

/-! ## Bytes behind a table -/

/-- What is written over bytes does not depend on bytes behind them. -/
theorem Bytes.overwrite_append (bytes rest : Bytes) {i : Nat} (data : List UInt8)
    (h : i + data.length ≤ bytes.size) :
    overwrite (bytes ++ rest) i data = bytes.overwrite i data ++ rest := by
  induction data generalizing bytes i with
  | nil => rfl
  | cons byte data ih =>
    rw [List.length_cons] at h
    rw [overwrite, overwrite, Array.setIfInBounds_append_left (by omega)]
    exact ih _ (by rw [Array.size_setIfInBounds]; omega)

/-- Writes that lie inside a table leave alone what is behind it. -/
theorem Writable.replay_append (table rest : Bytes) {puts : List (UInt64 × List UInt8)}
    (hfits : ∀ put ∈ puts, put.1.toNat + put.2.length ≤ table.size) :
    Writable.bytes.replay (table ++ rest) puts = Writable.bytes.replay table puts ++ rest := by
  induction puts generalizing table with
  | nil => rfl
  | cons put puts ih =>
    have hput := hfits put (List.mem_cons_self ..)
    have hlong : put.1.toNat + put.2.length ≤ (table ++ rest).size := by
      rw [Array.size_append]
      omega
    rw [replay_cons, replay_cons]
    show bytes.replay (Bytes.put (table ++ rest) put.1 put.2).2 puts =
      bytes.replay (Bytes.put table put.1 put.2).2 puts ++ rest
    rw [Bytes.put_of_le hlong, Bytes.put_of_le hput, Bytes.overwrite_append table rest _ hput]
    refine ih _ fun later hlater => ?_
    rw [Bytes.size_overwrite]
    exact hfits later (List.mem_cons_of_mem _ hlater)

section Resolve

variable {μ μ₀ : Type} {image table : Bytes} {m : Monitor μ} {monitor : μ} {m₀ : Monitor μ₀}
  {monitor₀ : μ₀}

/-- An undisturbed scan into a table with bytes behind it does what it does without them. -/
theorem resolve_append (hroom : HasRoom image table) (rest : Bytes)
    (hlong : (table ++ rest).size < UInt64.size) (hquiet : m.Quiet (.ofNat image.size) monitor)
    (hquiet₀ : m₀.Quiet (.ofNat image.size) monitor₀) :
    let short := resolve (.ofBytes image) .bytes m₀ table monitor₀
    let long := resolve (.ofBytes image) .bytes m (table ++ rest) monitor
    long.result = short.result ∧ long.table = short.table ++ rest := by
  intro short long
  have hroom' : HasRoom image (table ++ rest) := by
    refine ⟨?_, hlong⟩
    have henough := hroom.enough
    rw [Array.size_append]
    omega
  obtain ⟨hresult, hputs⟩ := undisturbed_agree Writable.honest_bytes hroom'
    (result_ne_cancelled hquiet _ _) Writable.honest_bytes hroom (result_ne_cancelled hquiet₀ _ _)
  refine ⟨hresult, ?_⟩
  have hfits := puts_fit (Readable.reflects_ofBytes image) hroom .bytes m₀ table monitor₀
  calc long.table = Writable.bytes.replay (table ++ rest) long.puts := table_eq_replay ..
    _ = Writable.bytes.replay (table ++ rest) short.puts := congrArg _ hputs
    _ = Writable.bytes.replay table short.puts ++ rest := Writable.replay_append table rest hfits
    _ = short.table ++ rest := congrArg (· ++ rest) (table_eq_replay ..).symm

/-- An undisturbed scan into zeros with room for more words makes the table of the image, with
zeros behind it. -/
theorem resolve_zeros {slots : Nat} (hle : image.size ≤ slots) (hslots : 2 * slots < UInt64.size)
    (hquiet : m.Quiet (.ofNat image.size) monitor) :
    let outcome := resolve (.ofBytes image) .bytes m (.zeros (2 * slots)) monitor
    outcome.result = (tableScan image).result ∧
      outcome.table = (tableScan image).table ++ .zeros (2 * (slots - image.size)) := by
  have hzeros : Bytes.zeros (2 * slots) =
      .zeros (2 * image.size) ++ .zeros (2 * (slots - image.size)) := by
    rw [Bytes.zeros, Bytes.zeros, Bytes.zeros, Array.replicate_append_replicate]
    congr 1
    omega
  have hroom : HasRoom image (.zeros (2 * image.size)) := by
    refine ⟨?_, ?_⟩ <;> rw [Bytes.size_zeros]
    omega
  have hlong : (Bytes.zeros (2 * slots)).size < UInt64.size := by rwa [Bytes.size_zeros]
  rw [hzeros] at hlong ⊢
  exact resolve_append hroom _ hlong hquiet (Monitor.quiet_silent _)

/-- A scan into zeros with room for fewer words is refused. -/
theorem resolve_zeros_of_lt {slots : Nat} (hlt : slots < image.size)
    (himage : image.size < UInt64.size) (hslots : 2 * slots < UInt64.size) :
    resolve (.ofBytes image) .bytes m (.zeros (2 * slots)) monitor =
      ⟨.error (.tableTooSmall (.ofNat image.size) (.ofNat (2 * slots))), .zeros (2 * slots),
        monitor, []⟩ := by
  have hsize : (id (Bytes.zeros (2 * slots))).size = 2 * slots := Bytes.size_zeros _
  have hresolve := Writable.honest_bytes.resolve_eq_of_lt (w := .bytes) himage
    (hsize.symm ▸ hslots) (by omega) m monitor
  rwa [hsize] at hresolve

end Resolve

/-! ## Analyses of a layout -/

/-- A program of two blocks, under the names of the settings: an image and a table behind it. -/
def Program.holding (processor : String) (settings : Settings) (image table : Bytes) : Program :=
  ⟨processor, ⟨[⟨settings.imageBlock, 0, image⟩,
    ⟨settings.tableBlock, .ofNat image.size, table⟩]⟩⟩

section Analyze

variable {μ : Type} {settings : Settings} {image : Bytes} {slots : Nat} {m : Monitor μ}
  {monitor : μ}

/-- With room for more words an undisturbed analysis concludes what the scan concludes that makes
the table of the image. -/
theorem analyze_withBlocks_of_le (hapart : settings.imageBlock ≠ settings.tableBlock)
    (hle : image.size ≤ slots) (hslots : 2 * slots < UInt64.size)
    (hquiet : m.Quiet (.ofNat image.size) monitor) (processor : String) (log : MessageLog) :
    let program := Program.withBlocks processor settings.imageBlock image settings.tableBlock slots
    ∃ monitor' records, analyze settings m program monitor log =
      .conclude (tableScan image).result
        (.holding processor settings image
          ((tableScan image).table ++ .zeros (2 * (slots - image.size))))
        monitor' log records := by
  intro program
  obtain ⟨hresult, htable⟩ := resolve_zeros hle hslots hquiet
  rw [analyze_withBlocks processor image slots m monitor log hapart, hresult, htable]
  exact ⟨_, _, rfl⟩

/-- With room for fewer words an analysis is given up before anything is done. -/
theorem analyze_withBlocks_of_lt (hapart : settings.imageBlock ≠ settings.tableBlock)
    (hlt : slots < image.size) (himage : image.size < UInt64.size)
    (hslots : 2 * slots < UInt64.size) (processor : String) (log : MessageLog) :
    let program := Program.withBlocks processor settings.imageBlock image settings.tableBlock slots
    analyze settings m program monitor log =
      .conclude (.error (.tableTooSmall (.ofNat image.size) (.ofNat (2 * slots)))) program monitor
        log [] := by
  intro program
  rw [analyze_withBlocks processor image slots m monitor log hapart,
    resolve_zeros_of_lt hlt himage hslots]
  rfl

/-- **Agreement.** Let a program be laid out with an image and zeros for so many words, under any
two names, and be analysed under settings with these names.

* With room for all words, and under a monitor that does not ask to stop, the analysis is done
  exactly if the image has a table, which then stands in the table block with the other zeros behind
  it. Otherwise it is given up, the log holds why the image has no table, and the table block holds
  what the scan has made that should have made it.
* With room for fewer words it is given up for that reason, with everything as it was.

Either way the image is as it was. -/
theorem analyze_agrees_with_branchTable (hapart : settings.imageBlock ≠ settings.tableBlock)
    (hslots : 2 * slots < UInt64.size) (processor : String) :
    let program := Program.withBlocks processor settings.imageBlock image settings.tableBlock slots
    let analysis := analyze settings m program monitor .empty
    program = .holding processor settings image (.zeros (2 * slots)) ∧
    (image.size ≤ slots → m.Quiet (.ofNat image.size) monitor →
      (analysis.result = .ok true ↔ ∃ table, branchTable image = .ok table) ∧
      (∀ table, branchTable image = .ok table →
        analysis.log = .empty ∧ analysis.program =
          .holding processor settings image (table ++ .zeros (2 * (slots - image.size)))) ∧
      ∀ cause, branchTable image = .error cause →
        analysis.result = .ok false ∧ analysis.log = ⟨[cause.message], cause.address?⟩ ∧
        analysis.program = .holding processor settings image
          ((tableScan image).table ++ .zeros (2 * (slots - image.size)))) ∧
    (slots < image.size → image.size < UInt64.size →
      analysis.result = .ok false ∧
      analysis.log =
        ⟨[(ResolutionError.tableTooSmall (.ofNat image.size) (.ofNat (2 * slots))).message], none⟩ ∧
      analysis.program = program ∧ analysis.monitor = monitor) := by
  intro program analysis
  refine ⟨rfl, fun hle hquiet => ?_, fun hlt himage => ?_⟩
  · obtain ⟨monitor', records, hanalysis⟩ : ∃ monitor' records, analysis = .conclude _ _ _ _ _ :=
      analyze_withBlocks_of_le hapart hle hslots hquiet processor .empty
    have himage : 2 * image.size < UInt64.size := by omega
    rw [hanalysis, Analysis.program_conclude, Analysis.result_conclude_eq_true_iff]
    refine ⟨?_, fun table htable => ?_, fun cause hcause => ?_⟩
    · rw [branchTable_eq]
      cases (tableScan image).result with
      | ok statistics => exact ⟨fun _ => ⟨_, rfl⟩, fun _ => ⟨statistics, rfl⟩⟩
      | error cause => exact ⟨fun ⟨_, h⟩ => (by cases h), fun ⟨_, h⟩ => (by cases h)⟩
    · rw [branchTable_eq] at htable
      cases hresult : (tableScan image).result with
      | error cause =>
        rw [hresult] at htable
        cases htable
      | ok statistics =>
        rw [hresult] at htable
        obtain rfl := Except.ok.inj htable
        exact ⟨rfl, rfl⟩
    · obtain ⟨hresult, address, haddress⟩ := exists_address_of_branchTable himage hcause
      have hne : cause ≠ .cancelled := by
        rintro rfl
        cases haddress
      rw [hresult]
      exact ⟨(Analysis.result_conclude_eq_false_iff ..).2 ⟨cause, hne, rfl⟩,
        Analysis.log_conclude_of_error _ _ _ _ hne, rfl⟩
  · have hanalysis : analysis = .conclude _ _ _ _ _ :=
      analyze_withBlocks_of_lt hapart hlt himage hslots processor .empty
    rw [hanalysis]
    exact ⟨rfl, rfl, rfl, rfl⟩

/-- A loop in a table with a word to spare, and in one that lacks a word. -/
theorem analyze_agrees_with_branchTable_loop :
    let settings : Settings := ⟨processorName, "code", "dest"⟩
    let monitor : Progress × TokenPool := (.new 0, ⟨#[false]⟩)
    let spacious := Program.withBlocks processorName "code" #[6, 7] "dest" 3
    let narrow := Program.withBlocks processorName "code" #[6, 7] "dest" 1
    "code" ≠ "dest" ∧ 2 * 3 < UInt64.size ∧ Monitor.task.Quiet (.ofNat 2) monitor ∧
      branchTable #[6, 7] = .ok #[2, 0, 0, 0] ∧
      (analyze settings .task spacious monitor .empty).result = .ok true ∧
      (analyze settings .task spacious monitor .empty).program =
        .holding processorName settings #[6, 7] #[2, 0, 0, 0, 0, 0] ∧
      (analyze settings .task narrow monitor .empty).result = .ok false ∧
      (analyze settings .task narrow monitor .empty).program = narrow ∧
      (analyze settings .task narrow monitor .empty).monitor = monitor := by
  intro settings monitor spacious narrow
  have hapart : "code" ≠ "dest" := by decide
  have hquiet : Monitor.task.Quiet (.ofNat 2) monitor := Monitor.quiet_task _ rfl
  have hbranch : branchTable #[6, 7] = .ok #[2, 0, 0, 0] := rfl
  obtain ⟨-, hmore, -⟩ := @analyze_agrees_with_branchTable _ settings #[6, 7] 3 .task monitor
    hapart (by decide) processorName
  obtain ⟨-, -, hfewer⟩ := @analyze_agrees_with_branchTable _ settings #[6, 7] 1 .task monitor
    hapart (by decide) processorName
  obtain ⟨hdone, htable, -⟩ := hmore (by decide) hquiet
  obtain ⟨hgiven, -, hprogram, hmonitor⟩ := hfewer (by decide) (by decide)
  exact ⟨hapart, by decide, hquiet, hbranch, hdone.2 ⟨_, hbranch⟩, (htable _ hbranch).2, hgiven,
    hprogram, hmonitor⟩

end Analyze

end LoopTable
