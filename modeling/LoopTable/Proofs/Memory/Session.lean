import LoopTable.Proofs.Analysis.Basic
import LoopTable.Proofs.Memory.Selection

/-!
# Sessions on a program

A session is any sequence of actions on one program: blocks are added, written into, picked for an
analysis, and analysed under any settings and monitor.

* `Action.perform` carries out one action and `Program.after` a session.
* `Action.Reaches` tells the bytes that an action may change, by what the program holds before it.
* `Action.step_perform` is what one action keeps, and `session_keeps_blocks` what a session keeps:
  blocks stay in place with their names, starts and sizes, and new ones come behind them.
-/

namespace LoopTable

/-! ## Actions -/

/-- What can be done to a program. -/
inductive Action : Type 1
  /-- Adds a block. -/
  | add (block : Block)
  /-- Writes into the block of a name. -/
  | put (name : String) (offset : UInt64) (data : List UInt8)
  /-- Picks two blocks, and may write into the second. -/
  | split (source target : String) (write : Option (UInt64 × List UInt8))
  /-- Analyses the program. -/
  | analyze {μ : Type} (settings : Settings) (m : Monitor μ) (monitor : μ) (log : MessageLog)

/-- What an action answers. -/
inductive Answer
  | added (result : Except Fault Unit)
  | put (result : Option (Except Fault Unit))
  | split (result : Except ResolutionError (Option (Except Fault Unit)))
  | analyzed (result : Except ResolutionError Bool)

/-- A block is not added, a write has no block or does not fit into it, or no two blocks are
picked. -/
inductive Answer.Refused : Answer → Prop
  | added {fault : Fault} : Refused (.added (.error fault))
  | noBlock : Refused (.put none)
  | put {fault : Fault} : Refused (.put (some (.error fault)))
  | split {cause : ResolutionError} : Refused (.split (.error cause))
  | splitPut {fault : Fault} : Refused (.split (.ok (some (.error fault))))

namespace Action

/-- Carries out an action. -/
def perform (program : Program) : Action → Answer × Program
  | .add block =>
    match program.memory.add block with
    | .ok memory => (.added (.ok ()), { program with memory })
    | .error fault => (.added (.error fault), program)
  | .put name offset data =>
    let (answer, memory) := program.memory.put name offset data
    (.put answer, { program with memory })
  | .split source target write =>
    match program.memory.split source target, write with
    | .error cause, _ => (.split (.error cause), program)
    | .ok _, none => (.split (.ok none), program)
    | .ok picked, some (offset, data) =>
      let (answer, memory) := program.memory.putTarget picked offset data
      (.split (.ok (some answer)), { program with memory })
  | .analyze settings m monitor log =>
    let analysis := LoopTable.analyze settings m program monitor log
    (.analyzed analysis.result, analysis.program)

/-- The blocks that an action adds, by what it answers: the one asked for, unless it is refused. -/
def accepted : Action → Answer → List Block
  | .add block, .added (.ok ()) => [block]
  | _, _ => []

/-- The blocks that an action adds to a program. -/
def additions (program : Program) (action : Action) : List Block :=
  action.accepted (action.perform program).1

/-- The bytes that an action may change, by place and position. A write covers them in the block it
is for; an analysis has a loop instruction for them in the block that it reads, which is never the
one they are in. -/
inductive Reaches (program : Program) : Action → Nat → Nat → Prop
  | put {name : String} {offset : UInt64} {data : List UInt8} {place i : Nat} {block : Block} :
      program.memory.Addressed name place block → Covers (offset, data) i →
      Reaches program (.put name offset data) place i
  | split {source target : String} {offset : UInt64} {data : List UInt8} {picked : Split}
      {readPlace i : Nat} :
      program.memory.split source target = .ok picked →
      program.memory.Splits source target readPlace picked → Covers (offset, data) i →
      Reaches program (.split source target (some (offset, data))) picked.place i
  | analyze {μ : Type} {settings : Settings} {m : Monitor μ} {monitor : μ} {log : MessageLog}
      {picked : Split} {readPlace i : Nat} :
      program.memory.split settings.imageBlock settings.tableBlock = .ok picked →
      program.memory.Splits settings.imageBlock settings.tableBlock readPlace picked →
      (picked.source.bytes[i / 2]? = some openByte ∨
        picked.source.bytes[i / 2]? = some closeByte) →
      Reaches program (.analyze settings m monitor log) picked.place i

end Action

/-! ## One action -/

/-- What an action leaves of a program: its processor, and its blocks in their places but for some
bytes that are reached. New blocks stand behind them. -/
structure Program.Step (before after : Program) (added : List Block) (reached : Nat → Nat → Prop) :
    Prop where
  /-- The processor stays. -/
  processor_eq : after.processor = before.processor
  /-- The blocks stay but for the bytes reached, and the added ones are as they were asked for. -/
  blocks_eq : ∃ memory, before.memory.ChangedOnly memory reached ∧
    after.memory.blocks = memory.blocks ++ added

namespace Program.Step

variable {program : Program} {memory : Memory} {reached : Nat → Nat → Prop}

theorem refl (program : Program) (reached : Nat → Nat → Prop) :
    program.Step program [] reached :=
  ⟨rfl, program.memory, .refl _ _, (List.append_nil _).symm⟩

/-- A step that adds no blocks. -/
theorem of_changedOnly (h : program.memory.ChangedOnly memory reached) :
    program.Step { program with memory } [] reached :=
  ⟨rfl, memory, h, (List.append_nil _).symm⟩

/-- A write into the block at a place. -/
theorem of_put {place : Nat} {block : Block} {offset : UInt64} {data : List UInt8}
    (h : program.memory.blocks[place]? = some block)
    (hreached : ∀ i, Covers (offset, data) i → reached place i) :
    program.Step { program with memory := program.memory.replace place (block.put offset data).2 }
      [] reached := by
  have hchanged := Memory.changedOnly_put h offset data
  refine .of_changedOnly ⟨hchanged.shapes_eq, fun other i hi => hchanged.frame other i ?_⟩
  rintro ⟨rfl, hcovers⟩
  exact hi (hreached i hcovers)

theorem shapes_eq {after : Program} {added : List Block} (h : program.Step after added reached) :
    after.memory.shapes = program.memory.shapes ++ added.map Block.shape := by
  obtain ⟨memory, hchanged, hblocks⟩ := h.blocks_eq
  rw [Memory.shapes, hblocks, List.map_append, ← hchanged.shapes_eq, Memory.shapes]

/-- The number of blocks never becomes smaller. -/
theorem length_le {after : Program} {added : List Block} (h : program.Step after added reached) :
    program.memory.blocks.length ≤ after.memory.blocks.length := by
  have hlength := congrArg List.length h.shapes_eq
  simp only [Memory.shapes, List.length_append, List.length_map] at hlength
  omega

/-- A byte of a block that was there is as it was, unless it is reached. -/
theorem byteAt?_eq {after : Program} {added : List Block} (h : program.Step after added reached)
    {place i : Nat} (hplace : place < program.memory.blocks.length) (hi : ¬ reached place i) :
    after.memory.byteAt? place i = program.memory.byteAt? place i := by
  obtain ⟨memory, hchanged, hblocks⟩ := h.blocks_eq
  have hlength := congrArg List.length hchanged.shapes_eq
  simp only [Memory.shapes, List.length_map] at hlength
  rw [← hchanged.frame place i hi, Memory.byteAt?, hblocks,
    List.getElem?_append_left (hlength ▸ hplace), Memory.byteAt?]

end Program.Step

namespace Action

/-- Everything that can come of an action: its answer, and the program after it. -/
inductive Performed (program : Program) : Action → Answer → Program → Prop
  /-- A block comes behind all others. -/
  | added {block : Block} :
      Performed program (.add block) (.added (.ok ()))
        { program with memory := ⟨program.memory.blocks ++ [block]⟩ }
  /-- The name of a block is taken. -/
  | taken {block : Block} {fault : Fault} :
      Performed program (.add block) (.added (.error fault)) program
  /-- No block has the name. -/
  | noBlock {name : String} {offset : UInt64} {data : List UInt8} :
      Performed program (.put name offset data) (.put none) program
  /-- The block of the name is written into. -/
  | put {name : String} {offset : UInt64} {data : List UInt8} {place : Nat} {block : Block}
      {answer : Except Fault Unit} :
      program.memory.Addressed name place block → (block.put offset data).1 = answer →
      Performed program (.put name offset data) (.put (some answer))
        { program with memory := program.memory.replace place (block.put offset data).2 }
  /-- The two blocks are not there, or not two. -/
  | noSplit {source target : String} {write : Option (UInt64 × List UInt8)}
      {cause : ResolutionError} :
      Performed program (.split source target write) (.split (.error cause)) program
  /-- The two blocks are picked. -/
  | split {source target : String} :
      Performed program (.split source target none) (.split (.ok none)) program
  /-- They are picked, and the second is written into. -/
  | splitPut {source target : String} {offset : UInt64} {data : List UInt8} {picked : Split}
      {readPlace : Nat} {answer : Except Fault Unit} :
      program.memory.split source target = .ok picked →
      program.memory.Splits source target readPlace picked →
      (picked.target.put offset data).1 = answer →
      Performed program (.split source target (some (offset, data))) (.split (.ok (some answer)))
        { program with
          memory := program.memory.replace picked.place (picked.target.put offset data).2 }
  /-- An analysis is refused its blocks. -/
  | noAnalysis {μ : Type} {settings : Settings} {m : Monitor μ} {monitor : μ} {log : MessageLog}
      {result : Except ResolutionError Bool} :
      Performed program (.analyze settings m monitor log) (.analyzed result) program
  /-- An analysis has scanned one block into the other. -/
  | analyzed {μ : Type} {settings : Settings} {m : Monitor μ} {monitor : μ} {log : MessageLog}
      {picked : Split} {readPlace : Nat} {result : Except ResolutionError Bool} :
      program.memory.split settings.imageBlock settings.tableBlock = .ok picked →
      program.memory.Splits settings.imageBlock settings.tableBlock readPlace picked →
      Performed program (.analyze settings m monitor log) (.analyzed result)
        { program with
          memory := program.memory.replace picked.place
            { picked.target with
              bytes := (resolve (.ofBytes picked.source.bytes) .bytes m picked.target.bytes
                monitor).table } }

/-- Nothing else can come of an action. -/
theorem performed_perform (program : Program) (action : Action) :
    Performed program action (action.perform program).1 (action.perform program).2 := by
  cases action with
  | add block =>
    simp only [perform, Memory.add]
    cases program.memory.get? block.name with
    | some _ => exact .taken
    | none => exact .added
  | put name offset data =>
    simp only [perform]
    rcases program.memory.addressed_of_put name offset data with
      hput | ⟨place, block, haddressed, hput⟩
    · rw [hput]
      exact .noBlock
    · rw [hput]
      exact .put haddressed rfl
  | split source target write =>
    simp only [perform]
    cases hsplit : program.memory.split source target with
    | error cause => exact .noSplit
    | ok picked =>
      cases write with
      | none => exact .split
      | some put =>
        obtain ⟨readPlace, hsplits⟩ := Memory.splits_of_split hsplit
        exact .splitPut hsplit hsplits rfl
  | analyze settings m monitor log =>
    simp only [perform]
    cases hsplit : program.memory.split settings.imageBlock settings.tableBlock with
    | error cause =>
      rw [analyze_of_split_error m monitor log hsplit, Analysis.program_conclude]
      exact .noAnalysis
    | ok picked =>
      obtain ⟨readPlace, hsplits⟩ := Memory.splits_of_split hsplit
      rw [analyze_of_split m monitor log hsplit, Analysis.program_conclude]
      exact .analyzed hsplit hsplits

namespace Performed

variable {program after : Program} {action : Action} {answer : Answer}

/-- What an action keeps. Whatever comes of an analysis, it writes only the words of loop
instructions. -/
theorem step (h : Performed program action answer after) :
    program.Step after (action.accepted answer) (action.Reaches program) := by
  cases h with
  | added => exact ⟨rfl, program.memory, .refl _ _, rfl⟩
  | taken | noBlock | noSplit | split | noAnalysis => exact .refl program _
  | put haddressed => exact .of_put haddressed.at_place fun _ hi => .put haddressed hi
  | splitPut hsplit hsplits => exact .of_put hsplits.target_at fun _ hi => .split hsplit hsplits hi
  | @analyzed μ settings m monitor log picked readPlace result hsplit hsplits =>
    obtain ⟨hsize, hframe⟩ := resolve_frame Writable.honest_bytes.confined
      (.ofBytes picked.source.bytes) m picked.target.bytes monitor
    -- the table is plain bytes, so what a scan does not ask for stays as it is
    refine .of_changedOnly (Memory.changedOnly_replace hsplits.target_at ?_ fun i hi => ?_)
    · exact congrArg (fun size => (picked.target.name, picked.target.start, size)) hsize
    · exact hframe i fun hloop => hi (.analyze hsplit hsplits hloop.of_bytes)

/-- An action that is refused changes nothing. -/
theorem eq_of_refused (h : Performed program action answer after) (hrefused : answer.Refused) :
    after = program := by
  cases h with
  | added | split | analyzed => cases hrefused
  | taken | noBlock | noSplit | noAnalysis => rfl
  | put haddressed hanswer =>
    cases hrefused with
    | put =>
      have hsame := Memory.replace_put_of_error haddressed.at_place hanswer
      exact congrArg (fun memory => { program with memory }) hsame
  | splitPut _ hsplits hanswer =>
    cases hrefused with
    | splitPut =>
      have hsame := Memory.replace_put_of_error hsplits.target_at hanswer
      exact congrArg (fun memory => { program with memory }) hsame

end Performed

theorem step_perform (program : Program) (action : Action) :
    program.Step (action.perform program).2 (action.additions program) (action.Reaches program) :=
  (performed_perform program action).step

end Action

/-! ## Sessions -/

namespace Program

/-- A program after a session. -/
def after (program : Program) (actions : List Action) : Program :=
  actions.foldl (fun program action => (action.perform program).2) program

/-- The blocks that a session adds, in order. -/
def additions (program : Program) : List Action → List Block
  | [] => []
  | action :: actions =>
    action.additions program ++ (action.perform program).2.additions actions

/-- Whether some action of a session reaches a byte. -/
def Touched (program : Program) : List Action → Nat → Nat → Prop
  | [], _, _ => False
  | action :: actions, place, i =>
    action.Reaches program place i ∨ (action.perform program).2.Touched actions place i

@[simp] theorem after_nil (program : Program) : program.after [] = program := rfl

@[simp] theorem after_cons (program : Program) (action : Action) (actions : List Action) :
    program.after (action :: actions) = (action.perform program).2.after actions := rfl

theorem processor_after (program : Program) (actions : List Action) :
    (program.after actions).processor = program.processor := by
  induction actions generalizing program with
  | nil => rfl
  | cons action actions ih => rw [after_cons, ih, (action.step_perform program).processor_eq]

theorem shapes_after (program : Program) (actions : List Action) :
    (program.after actions).memory.shapes =
      program.memory.shapes ++ (program.additions actions).map Block.shape := by
  induction actions generalizing program with
  | nil => simp [additions]
  | cons action actions ih =>
    rw [after_cons, ih, (action.step_perform program).shapes_eq, additions, List.map_append,
      List.append_assoc]

theorem byteAt?_after (program : Program) (actions : List Action) {place i : Nat}
    (hplace : place < program.memory.blocks.length) (hi : ¬ program.Touched actions place i) :
    (program.after actions).memory.byteAt? place i = program.memory.byteAt? place i := by
  induction actions generalizing program with
  | nil => rfl
  | cons action actions ih =>
    obtain ⟨hfirst, hrest⟩ := not_or.1 hi
    have hstep := action.step_perform program
    rw [after_cons, ih _ (Nat.lt_of_lt_of_le hplace hstep.length_le) hrest,
      hstep.byteAt?_eq hplace hfirst]

end Program

/-- **Frame of a session.** In every session on a program the blocks stay in their places with their
names, starts and sizes, and the list grows by one block behind them for each that is added. A byte
stays as it is unless an action reaches it.

Each action adds at most the block asked for, changes only bytes that it reaches, and changes
nothing if it is refused. -/
theorem session_keeps_blocks (program : Program) :
    (∀ actions,
      (program.after actions).processor = program.processor ∧
      (program.after actions).memory.shapes =
        program.memory.shapes ++ (program.additions actions).map Block.shape ∧
      ∀ place i, place < program.memory.blocks.length → ¬ program.Touched actions place i →
        (program.after actions).memory.byteAt? place i = program.memory.byteAt? place i) ∧
    ∀ action : Action,
      program.Step (action.perform program).2 (action.additions program)
        (action.Reaches program) ∧
      ((action.perform program).1.Refused → (action.perform program).2 = program) :=
  ⟨fun actions => ⟨program.processor_after actions, program.shapes_after actions,
      fun _ _ hplace hi => program.byteAt?_after actions hplace hi⟩,
    fun action => ⟨action.step_perform program, (action.performed_perform program).eq_of_refused⟩⟩

/-- A second block of the image's name is refused, and an analysis leaves the image alone. -/
theorem session_keeps_blocks_analyzed :
    let program := Program.ofImage processorName #[6, 7] 2
    let second : Action := .add (.zeroed imageBlockName 0 1)
    let actions := [second, .analyze .standard .silent () .empty]
    (second.perform program).1.Refused ∧ (second.perform program).2 = program ∧
      ¬ program.Touched actions 0 1 ∧
      (program.after actions).memory.shapes = [("rom", 0, 2), ("bdest", 2, 4)] ∧
      (program.after actions).memory.byteAt? 0 1 = some 7 := by
  intro program second actions
  obtain ⟨hsession, haction⟩ := session_keeps_blocks program
  have hrefused : (second.perform program).1.Refused := .added
  have hsame := (haction second).2 hrefused
  have hfree : ¬ program.Touched actions 0 1 := by
    rintro (hreached | hreached | hreached)
    · change Action.Reaches program (.add _) 0 1 at hreached
      cases hreached
    · rw [hsame] at hreached
      generalize hplace : 0 = place at hreached
      cases hreached with
      | analyze hsplit _ _ =>
        obtain rfl := Except.ok.inj hsplit
        cases hplace
    · exact hreached
  obtain ⟨-, hshapes, hbytes⟩ := hsession actions
  exact ⟨hrefused, hsame, hfree, hshapes, hbytes 0 1 (by decide) hfree⟩

end LoopTable
