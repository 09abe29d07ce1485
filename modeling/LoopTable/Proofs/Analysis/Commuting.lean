import LoopTable.Proofs.Analysis.Basic
import LoopTable.Proofs.Memory.Selection
import LoopTable.Proofs.Progress
import LoopTable.Proofs.Resolution.Watching

/-!
# Analyses that have nothing to do with each other

An analysis reads the two blocks that it picks by name, and changes one of them. So two analyses
neither of which reads or changes the block that the other changes may be made in either order.

* `Settings.patch` is the block that an analysis puts into a memory, and its place. Two patches at
  different places may be made in either order (`Memory.patch_comm`).
* An analysis finds the same in two programs in which it picks the same blocks, under monitors that
  answer alike (`alike_analyze`).
* Under `Settings.Apart` the patch of one analysis does not change which blocks the other picks
  (`split_analyze_of_apart`).

Two monitors may share the pool of flags behind their tokens. An analysis cancels its own token at
most (`exists_cancelIf_analyze`), which the other does not see if it asks another token
(`Monitor.KeepsProgress.agrees`).

The main result is `analyses_commute`.
-/

namespace LoopTable

/-! ## Patches -/

namespace Memory

/-- A memory after a block has been put in the place of another, if there is one to put. -/
def patch (memory : Memory) : Option (Nat × Block) → Memory
  | none => memory
  | some (place, block) => memory.replace place block

/-- Patches at different places may be made in either order. -/
theorem patch_comm (memory : Memory) {first second : Option (Nat × Block)}
    (h : ∀ a ∈ first, ∀ b ∈ second, a.1 ≠ b.1) :
    (memory.patch first).patch second = (memory.patch second).patch first := by
  cases first with
  | none => rfl
  | some a =>
    cases second with
    | none => rfl
    | some b =>
      have hplaces : a.1 ≠ b.1 := h a rfl b rfl
      exact congrArg Memory.mk (List.set_comm _ _ hplaces)

end Memory

namespace Settings

variable {μ : Type}

/-- The block that an analysis puts into a memory, with its place. -/
def patch (settings : Settings) (m : Monitor μ) (memory : Memory) (monitor : μ) :
    Option (Nat × Block) :=
  match memory.split settings.imageBlock settings.tableBlock with
  | .error _ => none
  | .ok ⟨source, place, target⟩ =>
    let outcome := resolve (.ofBytes source.bytes) .bytes m target.bytes monitor
    some (place, { target with bytes := outcome.table })

variable (settings : Settings) (m : Monitor μ) (program : Program) (monitor : μ)
  (log : MessageLog)

/-- An analysis does nothing to a program but to patch its memory. -/
theorem program_analyze :
    (analyze settings m program monitor log).program =
      { program with memory := program.memory.patch (settings.patch m program.memory monitor) } := by
  cases h : program.memory.split settings.imageBlock settings.tableBlock with
  | error cause =>
    rw [analyze_of_split_error m monitor log h, Analysis.program_conclude]
    simp only [patch, h, Memory.patch]
  | ok split =>
    rw [analyze_of_split m monitor log h, Analysis.program_conclude]
    simp only [patch, h, Memory.patch]

/-- The block that an analysis puts takes the place of one of the same name, which is the name of
the table. -/
theorem named_of_mem_patch {memory : Memory} {put : Nat × Block}
    (h : put ∈ settings.patch m memory monitor) :
    ∃ target, memory.blocks[put.1]? = some target ∧ target.name = settings.tableBlock ∧
      put.2.name = target.name := by
  cases hsplit : memory.split settings.imageBlock settings.tableBlock with
  | error cause =>
    simp only [patch, hsplit] at h
    cases h
  | ok split =>
    simp only [patch, hsplit] at h
    obtain rfl := Option.some.inj h
    obtain ⟨_, hsplits⟩ := Memory.splits_of_split hsplit
    exact ⟨split.target, hsplits.target_at, hsplits.target_name, rfl⟩

/-- Neither of two analyses reads or changes the block that the other changes. -/
structure Apart (A B : Settings) : Prop where
  /-- They change two blocks. -/
  tables_ne : A.tableBlock ≠ B.tableBlock
  /-- The second does not read what the first changes. -/
  image_ne : B.imageBlock ≠ A.tableBlock
  /-- The first does not read what the second changes. -/
  image_ne' : A.imageBlock ≠ B.tableBlock

variable {A B : Settings}

theorem Apart.symm (h : A.Apart B) : B.Apart A :=
  ⟨h.tables_ne.symm, h.image_ne', h.image_ne⟩

/-- The patch of an analysis does not change which blocks another picks. -/
theorem split_patch_of_apart (h : A.Apart B) (memory : Memory) :
    (memory.patch (A.patch m memory monitor)).split B.imageBlock B.tableBlock =
      memory.split B.imageBlock B.tableBlock := by
  cases hput : A.patch m memory monitor with
  | none => rfl
  | some put =>
    obtain ⟨target, hat, hname, hsame⟩ := A.named_of_mem_patch m monitor hput
    have himage : target.name ≠ B.imageBlock := fun heq => h.image_ne (heq.symm.trans hname)
    have htable : target.name ≠ B.tableBlock := fun heq => h.tables_ne (hname.symm.trans heq)
    exact Memory.split_replace hat himage htable hsame

end Settings

/-! ## The same analysis of two programs -/

/-- Two analyses give the same answer, tell the user the same and log the same, and their monitors
are left in related states. -/
structure Analysis.FindsAlike {μ ν : Type} (related : μ → ν → Prop) (first : Analysis μ)
    (second : Analysis ν) : Prop where
  /-- The answer is the same. -/
  result_eq : second.result = first.result
  /-- The monitors are related. -/
  monitors : related first.monitor second.monitor
  /-- The messages are the same. -/
  log_eq : second.log = first.log
  /-- The records are the same. -/
  records_eq : second.records = first.records

/-- Reports of one result are alike. -/
theorem Analysis.findsAlike_conclude {μ ν : Type} {related : μ → ν → Prop}
    (result : Except ResolutionError Statistics) (program program' : Program) {s : μ} {t : ν}
    (log : MessageLog) (records : List Record) (h : related s t) :
    (conclude result program s log records).FindsAlike related
      (conclude result program' t log records) := by
  cases result with
  | ok statistics => exact ⟨rfl, h, rfl, rfl⟩
  | error cause =>
    cases cause
    all_goals exact ⟨rfl, h, rfl, rfl⟩

section Alike

variable {μ ν : Type} {related : μ → ν → Prop} {m : Monitor μ} {n : Monitor ν}
  {settings : Settings} {program program' : Program}

/-- An analysis finds the same in two programs in which it picks the same blocks, and makes the same
of them. -/
theorem alike_analyze (hagrees : m.Agrees n related)
    (hsplit : program'.memory.split settings.imageBlock settings.tableBlock =
      program.memory.split settings.imageBlock settings.tableBlock)
    {s : μ} {t : ν} (h : related s t) (log : MessageLog) :
    (analyze settings m program s log).FindsAlike related (analyze settings n program' t log) ∧
      settings.patch n program'.memory t = settings.patch m program.memory s := by
  cases hpicked : program.memory.split settings.imageBlock settings.tableBlock with
  | error cause =>
    rw [hpicked] at hsplit
    rw [analyze_of_split_error m s log hpicked, analyze_of_split_error n t log hsplit]
    refine ⟨Analysis.findsAlike_conclude _ _ _ _ _ h, ?_⟩
    simp only [Settings.patch, hpicked, hsplit]
  | ok split =>
    rw [hpicked] at hsplit
    rw [analyze_of_split m s log hpicked, analyze_of_split n t log hsplit]
    simp only [Settings.patch, hpicked, hsplit]
    have halike := alike_resolve hagrees (.ofBytes split.source.bytes) .bytes split.target.bytes h
    generalize resolve _ _ m _ _ = first at halike ⊢
    generalize resolve _ _ n _ _ = second at halike ⊢
    obtain ⟨hmonitors⟩ := halike
    exact ⟨Analysis.findsAlike_conclude _ _ _ _ _ hmonitors, rfl⟩

end Alike

/-! ## Two analyses -/

section Two

variable {A B : Settings} {μ ν : Type} (m : Monitor μ) (program : Program) (s : μ)

/-- An analysis does not change which blocks another picks. -/
theorem split_analyze_of_apart (hapart : A.Apart B) (log : MessageLog) :
    (analyze A m program s log).program.memory.split B.imageBlock B.tableBlock =
      program.memory.split B.imageBlock B.tableBlock := by
  rw [A.program_analyze]
  exact Settings.split_patch_of_apart m s hapart program.memory

/-- Two analyses that put the same blocks whichever comes first leave the same program. -/
theorem program_comm (hapart : A.Apart B) (n : Monitor ν) (t : ν) {s' : μ} {t' : ν}
    (logA logB : MessageLog)
    (hA : A.patch m (analyze B n program t logB).program.memory s' = A.patch m program.memory s)
    (hB : B.patch n (analyze A m program s logA).program.memory t' = B.patch n program.memory t) :
    (analyze B n (analyze A m program s logA).program t' logB).program =
      (analyze A m (analyze B n program t logB).program s' logA).program := by
  rw [B.program_analyze, A.program_analyze m _ s', hA, hB, A.program_analyze, B.program_analyze]
  refine congrArg (Program.mk program.processor) (program.memory.patch_comm fun a ha b hb => ?_)
  obtain ⟨target, hat, hname, -⟩ := A.named_of_mem_patch m s ha
  obtain ⟨target', hat', hname', -⟩ := B.named_of_mem_patch n t hb
  -- one block cannot have both names
  intro hplace
  rw [hplace, hat'] at hat
  obtain rfl := Option.some.inj hat
  exact hapart.tables_ne (hname.symm.trans hname')

end Two

/-! ## Tokens of one pool -/

/-- The same progress, whose token gives the same answer. -/
def SameProgress (s t : Progress × TokenPool) : Prop :=
  t.1 = s.1 ∧ t.2.isCancelled s.1.token = s.2.isCancelled s.1.token

section Tokens

variable {m : Monitor (Progress × TokenPool)}

/-- A monitor does not see whether another token has been cancelled. -/
theorem Monitor.KeepsProgress.agrees (hm : m.KeepsProgress) {token other : Token}
    (hother : other ≠ token) (cancels : Bool) :
    m.Agrees m fun s t => s.1.token = token ∧ t = (s.1, s.2.cancelIf cancels other) := by
  refine ⟨?_, ?_, ?_⟩
  · rintro total ⟨p, pool⟩ _ ⟨rfl, rfl⟩
    rw [hm.start_eq, hm.start_eq]
    exact ⟨rfl, rfl⟩
  · rintro amount ⟨p, pool⟩ _ ⟨rfl, rfl⟩
    obtain ⟨cancels', hadvance⟩ := hm.advance_eq amount p
    rw [hadvance, hadvance, pool.cancelIf_comm]
    exact ⟨rfl, rfl⟩
  · rintro ⟨p, pool⟩ _ ⟨rfl, rfl⟩
    rw [hm.isCancelled_eq, hm.isCancelled_eq]
    exact TokenPool.isCancelled_cancelIf_of_ne cancels hother

/-- An analysis cancels the token of its monitor at most. -/
theorem exists_cancelIf_analyze (hm : m.KeepsProgress) (settings : Settings) (program : Program)
    (p : Progress) (pool : TokenPool) (log : MessageLog) :
    ∃ cancels, (analyze settings m program (p, pool) log).monitor.2 =
      pool.cancelIf cancels p.token := by
  have hkept := @monitor_analyze _ m
    (fun s => s.1.token = p.token ∧ ∃ cancels, s.2 = pool.cancelIf cancels p.token)
  refine (hkept ?_ ?_ settings program ⟨rfl, false, rfl⟩ log).2
  · rintro total ⟨p', pool'⟩ hs
    rw [hm.start_eq]
    exact hs
  · rintro amount ⟨p', _⟩ ⟨htoken, cancels, rfl⟩
    obtain ⟨cancels', hadvance⟩ := hm.advance_eq amount p'
    rw [hadvance]
    refine ⟨htoken, cancels || cancels', ?_⟩
    rw [htoken, TokenPool.cancelIf_cancelIf_self]

/-- An analysis finds the same whether or not another token has been cancelled, and leaves that
token as it was. -/
theorem alike_analyze_cancelIf (hm : m.KeepsProgress) {settings : Settings}
    {program program' : Program}
    (hsplit : program'.memory.split settings.imageBlock settings.tableBlock =
      program.memory.split settings.imageBlock settings.tableBlock)
    {p : Progress} {other : Token} (hother : other ≠ p.token) (cancels : Bool)
    (pool : TokenPool) (log : MessageLog) :
    let first := analyze settings m program (p, pool) log
    let second := analyze settings m program' (p, pool.cancelIf cancels other) log
    second.monitor.2 = first.monitor.2.cancelIf cancels other ∧
      first.FindsAlike SameProgress second ∧
      settings.patch m program'.memory (p, pool.cancelIf cancels other) =
        settings.patch m program.memory (p, pool) := by
  intro first second
  obtain ⟨hfinds, hpatch⟩ := alike_analyze (hm.agrees hother cancels) hsplit (s := (p, pool))
    ⟨rfl, rfl⟩ log
  obtain ⟨hresult, ⟨htoken, hmonitor⟩, hlog, hrecords⟩ := hfinds
  obtain ⟨hprogress, hpool⟩ : second.monitor.1 = first.monitor.1 ∧
      second.monitor.2 = first.monitor.2.cancelIf cancels other := Prod.ext_iff.1 hmonitor
  refine ⟨hpool, ⟨hresult, ⟨hprogress, ?_⟩, hlog, hrecords⟩, hpatch⟩
  rw [hpool, htoken]
  exact TokenPool.isCancelled_cancelIf_of_ne cancels hother

end Tokens

/-! ## In either order -/

/-- **Analyses commute.** Let neither of two analyses read or change the block that the other
changes. Then in every program they may be made in either order: both orders leave the same program,
and each analysis gives the same answer, tells the user the same, logs the same and leaves its
monitor in the same state as if it is made first.

* This is so for all monitors with states of their own.
* It is also so for two progresses on two tokens of one pool, which may cancel themselves. Both
  orders then leave the same pool. -/
theorem analyses_commute {A B : Settings} (hapart : A.Apart B) (program : Program)
    (logA logB : MessageLog) :
    (∀ {μ ν : Type} (m : Monitor μ) (n : Monitor ν) (s : μ) (t : ν),
      let a := analyze A m program s logA
      let b := analyze B n program t logB
      let a' := analyze A m b.program s logA
      let b' := analyze B n a.program t logB
      b'.program = a'.program ∧ a.FindsAlike Eq a' ∧ b.FindsAlike Eq b') ∧
    ∀ m n : Monitor (Progress × TokenPool), m.KeepsProgress → n.KeepsProgress →
      ∀ (p q : Progress) (pool : TokenPool), p.token ≠ q.token →
      let a := analyze A m program (p, pool) logA
      let b := analyze B n program (q, pool) logB
      let a' := analyze A m b.program (p, b.monitor.2) logA
      let b' := analyze B n a.program (q, a.monitor.2) logB
      b'.program = a'.program ∧ b'.monitor.2 = a'.monitor.2 ∧
        a.FindsAlike SameProgress a' ∧ b.FindsAlike SameProgress b' := by
  refine ⟨?_, ?_⟩
  · intro μ ν m n s t a b a' b'
    have hreads := split_analyze_of_apart m program s hapart logA
    have hreads' := split_analyze_of_apart n program t hapart.symm logB
    obtain ⟨ha, hpatch⟩ := alike_analyze m.agrees_self hreads' (rfl : s = s) logA
    obtain ⟨hb, hpatch'⟩ := alike_analyze n.agrees_self hreads (rfl : t = t) logB
    exact ⟨program_comm m program s hapart n t logA logB hpatch hpatch', ha, hb⟩
  · intro m n hm hn p q pool htokens a b a' b'
    have hreads := split_analyze_of_apart m program (p, pool) hapart logA
    have hreads' := split_analyze_of_apart n program (q, pool) hapart.symm logB
    obtain ⟨cancelsA, hpoolA⟩ := exists_cancelIf_analyze hm A program p pool logA
    obtain ⟨cancelsB, hpoolB⟩ := exists_cancelIf_analyze hn B program q pool logB
    obtain ⟨hafter, ha, hpatch⟩ :=
      alike_analyze_cancelIf hm hreads' htokens.symm cancelsB pool logA
    obtain ⟨hafter', hb, hpatch'⟩ := alike_analyze_cancelIf hn hreads htokens cancelsA pool logB
    rw [← hpoolB] at hafter ha hpatch
    rw [← hpoolA] at hafter' hb hpatch'
    refine ⟨program_comm m program (p, pool) hapart n (q, pool) logA logB hpatch hpatch', ?_, ha,
      hb⟩
    calc b'.monitor.2 = b.monitor.2.cancelIf cancelsA p.token := hafter'
      _ = (pool.cancelIf cancelsB q.token).cancelIf cancelsA p.token := by rw [hpoolB]
      _ = (pool.cancelIf cancelsA p.token).cancelIf cancelsB q.token := pool.cancelIf_comm ..
      _ = a.monitor.2.cancelIf cancelsB q.token := by rw [hpoolA]
      _ = a'.monitor.2 := hafter.symm

/-- Two tables of one image, for the first of which the analysis cancels itself: it is cancelled in
either order, and the second table is made in either order. -/
theorem analyses_commute_on_one_image :
    let A : Settings := ⟨processorName, "code", "first"⟩
    let B : Settings := ⟨processorName, "code", "second"⟩
    let program : Program := ⟨processorName,
      ⟨[⟨"code", 0, #[6, 7]⟩, .zeroed "first" 2 4, .zeroed "second" 6 4]⟩⟩
    let pool : TokenPool := ⟨#[false, false]⟩
    let a := analyze A (.taskUntil 1) program (.new 0, pool) .empty
    let b := analyze B .task program (.new 1, pool) .empty
    let a' := analyze A (.taskUntil 1) b.program (.new 0, b.monitor.2) .empty
    let b' := analyze B .task a.program (.new 1, a.monitor.2) .empty
    A.Apart B ∧ (Monitor.taskUntil 1).KeepsProgress ∧ Monitor.task.KeepsProgress ∧
      (Progress.new 0).token ≠ (Progress.new 1).token ∧
      b'.program = a'.program ∧ b'.monitor.2 = a'.monitor.2 ∧
      a.result = .error .cancelled ∧ a'.result = .error .cancelled ∧
      b.result = .ok true ∧ b'.result = .ok true ∧
      (analyze B .silent (analyze A .silent program () .empty).program () .empty).program =
        (analyze A .silent (analyze B .silent program () .empty).program () .empty).program := by
  intro A B program pool
  have hapart : A.Apart B := ⟨by decide, by decide, by decide⟩
  have htokens : (Progress.new 0).token ≠ (Progress.new 1).token := by decide
  have hm := Monitor.keepsProgress_taskUntil 1
  have hn := Monitor.keepsProgress_task
  have ha : (analyze A (.taskUntil 1) program (.new 0, pool) .empty).result = .error .cancelled :=
    rfl
  have hb : (analyze B .task program (.new 1, pool) .empty).result = .ok true := rfl
  obtain ⟨hseparate, hshared⟩ := analyses_commute hapart program .empty .empty
  obtain ⟨hprogram, hpool, hfindsA, hfindsB⟩ := hshared _ _ hm hn (.new 0) (.new 1) pool htokens
  obtain ⟨hsilent, -, -⟩ := hseparate .silent .silent () ()
  exact ⟨hapart, hm, hn, htokens, hprogram, hpool, ha, hfindsA.result_eq.trans ha, hb,
    hfindsB.result_eq.trans hb, hsilent⟩

end LoopTable
