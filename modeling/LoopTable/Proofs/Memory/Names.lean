import Mathlib.Data.List.Nodup
import LoopTable.Proofs.Memory.Session

/-!
# Names of blocks

Blocks are found by name, the first of a name by `Memory.get?` and the last by `Memory.split`. Both
find the same block if no two blocks have one name.

* `Layout` lists the ways in which a program can be made.
* `Memory.add` refuses a name that is taken, and no action gives a block another name. So whether
  the names are all different does not change in a session (`Program.nodup_names_after_iff`): it is
  settled when the program is made (`Layout.nodup_names_iff`).

A layout whose image and table are given one name is the only one with two blocks of a name, since
nothing looks at the names when it is made (`nodup_names_iff_namesApart`).
-/

namespace LoopTable

/-! ## Names -/

/-- The names of all blocks, in order. -/
def Memory.names (memory : Memory) : List String :=
  memory.blocks.map Block.name

namespace Memory

theorem names_eq_shapes (memory : Memory) : memory.names = memory.shapes.map Prod.fst := by
  rw [names, shapes, List.map_map]
  rfl

/-- A block that is added has a name that no other block has. -/
theorem not_mem_names_of_add {memory after : Memory} {block : Block}
    (h : memory.add block = .ok after) : block.name ∉ memory.names := by
  rw [add] at h
  cases hget : memory.get? block.name with
  | some taken =>
    rw [hget] at h
    cases h
  | none =>
    rw [get?, List.find?_eq_none] at hget
    intro hmem
    obtain ⟨other, hother, hname⟩ := List.mem_map.1 hmem
    exact hget other hother (beq_iff_eq.2 hname)

end Memory

/-! ## Sessions -/

namespace Action

variable (program : Program) (action : Action)

/-- The names after an action are those before it and those of the blocks it adds. -/
theorem names_perform :
    (action.perform program).2.memory.names =
      program.memory.names ++ (action.additions program).map Block.name := by
  rw [Memory.names_eq_shapes, (action.step_perform program).shapes_eq, List.map_append,
    ← Memory.names_eq_shapes, List.map_map]
  rfl

/-- An action adds nothing, or one block under a name of its own. -/
theorem additions_eq :
    action.additions program = [] ∨
      ∃ block, action.additions program = [block] ∧ block.name ∉ program.memory.names := by
  cases action with
  | put | split | analyze => exact Or.inl rfl
  | add block =>
    cases hadd : program.memory.add block with
    | error fault => exact Or.inl (by simp only [additions, perform, hadd, accepted])
    | ok memory =>
      refine Or.inr ⟨block, ?_, Memory.not_mem_names_of_add hadd⟩
      simp only [additions, perform, hadd, accepted]

theorem nodup_names_perform_iff :
    (action.perform program).2.memory.names.Nodup ↔ program.memory.names.Nodup := by
  rw [names_perform]
  rcases action.additions_eq program with hnone | ⟨block, hone, hfresh⟩
  · rw [hnone, List.map_nil, List.append_nil]
  · rw [hone, List.map_singleton, ← List.concat_eq_append, List.nodup_concat]
    exact and_iff_right hfresh

end Action

/-- In a session the names neither become nor cease to be all different. -/
theorem Program.nodup_names_after_iff (program : Program) (actions : List Action) :
    (program.after actions).memory.names.Nodup ↔ program.memory.names.Nodup := by
  induction actions generalizing program with
  | nil => rfl
  | cons action actions ih => rw [after_cons, ih, action.nodup_names_perform_iff]

/-! ## Layouts -/

/-- How a program is made. -/
inductive Layout
  /-- Without memory. -/
  | empty (processor : String)
  /-- With an image and its table, under the usual names. -/
  | usual (processor : String) (image : Bytes) (slots : Nat)
  /-- With an image and its table, under names that are given. -/
  | named (processor imageBlock : String) (image : Bytes) (tableBlock : String) (slots : Nat)

namespace Layout

/-- The program that is made. -/
def program : Layout → Program
  | .empty processor => .new processor
  | .usual processor image slots => .ofImage processor image slots
  | .named processor imageBlock image tableBlock slots =>
    .withBlocks processor imageBlock image tableBlock slots

/-- Image and table are not given one name. -/
def NamesApart : Layout → Prop
  | .empty _ | .usual _ _ _ => True
  | .named _ imageBlock _ tableBlock _ => imageBlock ≠ tableBlock

/-- The names of a layout are those that it is given, whether they are different or not. -/
theorem nodup_names_iff (layout : Layout) :
    layout.program.memory.names.Nodup ↔ layout.NamesApart := by
  cases layout with
  | empty processor => exact iff_of_true List.nodup_nil trivial
  | usual processor image slots =>
    have hnames : (Program.ofImage processor image slots).memory.names =
        [imageBlockName, tableBlockName] := rfl
    exact iff_of_true (hnames ▸ by decide) trivial
  | named processor imageBlock image tableBlock slots =>
    show [imageBlock, tableBlock].Nodup ↔ imageBlock ≠ tableBlock
    simp

end Layout

/-- **Names.** However a program is made and whatever is done to it, its blocks have different
names, unless its image and its table were given one name when it was made. -/
theorem nodup_names_iff_namesApart (layout : Layout) (actions : List Action) :
    (layout.program.after actions).memory.names.Nodup ↔ layout.NamesApart := by
  rw [Program.nodup_names_after_iff, Layout.nodup_names_iff]

/-- A layout may have two blocks of one name. -/
theorem not_nodup_names_of_one_name :
    let layout := Layout.named processorName "code" #[6] "code" 1
    (layout.program.after []).memory.names = ["code", "code"] ∧
      ¬ (layout.program.after []).memory.names.Nodup := by
  intro layout
  have hnames : (layout.program.after []).memory.names = ["code", "code"] := rfl
  exact ⟨hnames, hnames ▸ by decide⟩

end LoopTable
