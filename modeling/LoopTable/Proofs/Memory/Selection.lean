import LoopTable.Proofs.Resolution.Replay

/-!
# Blocks picked out of a memory

Operations on a memory work on one block of it, found by name. `Memory.addressed_of_put` says which
block a write works on, `Memory.splits_of_split` which two blocks a split picks.

Whatever is done to the picked block, it keeps its name, start and size, and all other blocks stay
as they are: `Memory.ChangedOnly` says so of two memories, byte by byte, and
`Memory.changedOnly_replace` is what every operation has it from.
-/

namespace LoopTable

/-! ## One block -/

/-- What stays the same of a block whatever is written into it: name, start and size. -/
def Block.shape (block : Block) : String × UInt64 × Nat :=
  (block.name, block.start, block.bytes.size)

namespace Block

variable (block : Block) (offset : UInt64) (data : List UInt8)

@[simp] theorem shape_put : (block.put offset data).2.shape = block.shape := by
  have hsize := Writable.honest_block.confined.size_put offset data block
  exact congrArg (fun size => (block.name, block.start, size)) hsize

/-- A write that is refused leaves the block as it was. -/
theorem put_of_error {fault : Fault} (h : (block.put offset data).1 = .error fault) :
    (block.put offset data).2 = block := by
  rcases Nat.lt_or_ge block.bytes.size (offset.toNat + data.length) with hlt | hle
  · simp only [put, Bytes.put_of_lt hlt]
  · simp only [put, Bytes.put_of_le hle] at h
    cases h

/-- A byte outside of the write is as it was. -/
theorem frame_put {i : Nat} (h : ¬ Covers (offset, data) i) :
    (block.put offset data).2.bytes[i]? = block.bytes[i]? :=
  Writable.honest_block.confined.frame offset data block i h

end Block

namespace Memory

variable {memory : Memory} {name source target : String} {place : Nat} {block : Block}

/-! ## Blocks found by name -/

/-- The block that a name addresses: the first of the name. -/
structure Addressed (memory : Memory) (name : String) (place : Nat) (block : Block) : Prop where
  /-- It stands at the place. -/
  at_place : memory.blocks[place]? = some block
  /-- It has the name. -/
  name_eq : block.name = name
  /-- No block before it has the name. -/
  first : ∀ p < place, ∀ b, memory.blocks[p]? = some b → b.name ≠ name

theorem addressed_of_findIdx? (h : memory.blocks.findIdx? (·.name == name) = some place) :
    ∃ block, memory.Addressed name place block ∧ memory.get? name = some block := by
  obtain ⟨hlt, hname, hfirst⟩ := List.findIdx?_eq_some_iff_getElem.1 h
  have hat : memory.blocks[place]? = some memory.blocks[place] := List.getElem?_eq_getElem hlt
  have hearlier : ∀ p < place, ∀ b, memory.blocks[p]? = some b → b.name ≠ name := by
    intro p hp b hb hbname
    obtain ⟨hlt', rfl⟩ := List.getElem?_eq_some_iff.1 hb
    exact hfirst p hp (beq_iff_eq.2 hbname)
  refine ⟨memory.blocks[place], ⟨hat, beq_iff_eq.1 hname, hearlier⟩, ?_⟩
  rw [get?, List.find?_eq_some_iff_getElem]
  exact ⟨hname, place, hlt, rfl, fun p hp => by simpa using hfirst p hp⟩

/-- A write by name works on the block that the name addresses, if there is one. -/
theorem addressed_of_put (memory : Memory) (name : String) (offset : UInt64) (data : List UInt8) :
    memory.put name offset data = (none, memory) ∨
      ∃ place block, memory.Addressed name place block ∧
        memory.put name offset data =
          (some (block.put offset data).1, memory.replace place (block.put offset data).2) := by
  cases h : memory.blocks.findIdx? (·.name == name) with
  | none => exact Or.inl (by simp only [put, h])
  | some place =>
    obtain ⟨block, haddressed, hget⟩ := addressed_of_findIdx? h
    exact Or.inr ⟨place, block, haddressed, by simp only [put, h, hget]⟩

/-- The last block of a name stands in its place and has the name. -/
theorem getElem?_of_last? {blocks : List Block} (h : last? name blocks = some (place, block)) :
    blocks[place]? = some block ∧ block.name = name := by
  induction blocks generalizing place with
  | nil => cases h
  | cons first blocks ih =>
    rw [last?] at h
    cases hrest : last? name blocks with
    | some found =>
      obtain ⟨p, b⟩ := found
      rw [hrest] at h
      obtain ⟨rfl, rfl⟩ := Prod.mk.inj (Option.some.inj h)
      exact ih hrest
    | none =>
      rw [hrest] at h
      by_cases hname : first.name = name
      · simp only [hname, if_true] at h
        obtain ⟨rfl, rfl⟩ := Prod.mk.inj (Option.some.inj h)
        exact ⟨rfl, hname⟩
      · simp only [hname, if_false] at h
        cases h

/-- A split has picked two blocks that stand at two places, under the names asked for. -/
structure Splits (memory : Memory) (source target : String) (place : Nat) (split : Split) :
    Prop where
  /-- The block to read stands at the first place. -/
  source_at : memory.blocks[place]? = some split.source
  /-- It has the first name. -/
  source_name : split.source.name = source
  /-- The block to write stands at the place that the split tells. -/
  target_at : memory.blocks[split.place]? = some split.target
  /-- It has the second name. -/
  target_name : split.target.name = target
  /-- They are not one block. -/
  apart : place ≠ split.place

/-- All that can come of picking two blocks. -/
inductive Picked (memory : Memory) (source target : String) : Except ResolutionError Split → Prop
  /-- The two are one. -/
  | shared : source = target → Picked memory source target (.error (.sharedBlock target))
  /-- There is no block to read. -/
  | noSource : source ≠ target → last? source memory.blocks = none →
      Picked memory source target (.error (.missingBlock source))
  /-- There is no block to write. -/
  | noTarget : source ≠ target → last? target memory.blocks = none →
      Picked memory source target (.error (.missingBlock target))
  /-- Both are there. -/
  | ok {place : Nat} {split : Split} : memory.Splits source target place split →
      Picked memory source target (.ok split)

theorem picked_split (memory : Memory) (source target : String) :
    memory.Picked source target (memory.split source target) := by
  rw [Memory.split]
  by_cases hnames : source = target
  · rw [if_pos hnames]
    exact .shared hnames
  · rw [if_neg hnames]
    cases hsource : last? source memory.blocks with
    | none => exact .noSource hnames hsource
    | some read =>
      cases htarget : last? target memory.blocks with
      | none => exact .noTarget hnames htarget
      | some written =>
        obtain ⟨hread, hreadName⟩ := getElem?_of_last? hsource
        obtain ⟨hwritten, hwrittenName⟩ := getElem?_of_last? htarget
        refine .ok ⟨hread, hreadName, hwritten, hwrittenName, fun heq => hnames ?_⟩
        -- one block cannot have both names
        rw [heq, hwritten] at hread
        rw [← hreadName, ← hwrittenName, Option.some.inj hread]

theorem splits_of_split {split : Split} (h : memory.split source target = .ok split) :
    ∃ place, memory.Splits source target place split := by
  have hpicked := memory.picked_split source target
  rw [h] at hpicked
  cases hpicked with
  | ok hsplits => exact ⟨_, hsplits⟩

/-- A block of another name may be changed without changing what is the last block of a name. -/
theorem last?_set {blocks : List Block} (hat : blocks[place]? = some block)
    (hother : block.name ≠ name) {changed : Block} (hname : changed.name = block.name) :
    last? name (blocks.set place changed) = last? name blocks := by
  induction blocks generalizing place with
  | nil => rfl
  | cons first blocks ih =>
    cases place with
    | zero =>
      obtain rfl := Option.some.inj hat
      have hother' : changed.name ≠ name := hname ▸ hother
      rw [List.set_cons_zero, last?, last?]
      simp only [hother, hother', if_false]
    | succ place =>
      rw [List.set_cons_succ, last?, last?, ih hat]

/-- A block of a third name may be changed without changing which blocks are picked. -/
theorem split_replace (hat : memory.blocks[place]? = some block) (hsource : block.name ≠ source)
    (htarget : block.name ≠ target) {changed : Block} (hname : changed.name = block.name) :
    (memory.replace place changed).split source target = memory.split source target := by
  simp only [Memory.split, replace, last?_set hat hsource hname, last?_set hat htarget hname]

/-! ## What a memory keeps -/

/-- The names, starts and sizes of all blocks, in order. -/
def shapes (memory : Memory) : List (String × UInt64 × Nat) :=
  memory.blocks.map Block.shape

/-- The byte at a position of the block at a place. -/
def byteAt? (memory : Memory) (place i : Nat) : Option UInt8 :=
  memory.blocks[place]?.bind (·.bytes[i]?)

/-- Two memories with blocks of the same names, starts and sizes that differ in some bytes only. -/
structure ChangedOnly (before after : Memory) (reached : Nat → Nat → Prop) : Prop where
  /-- Every block keeps its place, name, start and size. -/
  shapes_eq : after.shapes = before.shapes
  /-- A byte that is not reached is as it was. -/
  frame : ∀ place i, ¬ reached place i → after.byteAt? place i = before.byteAt? place i

theorem ChangedOnly.refl (memory : Memory) (reached : Nat → Nat → Prop) :
    memory.ChangedOnly memory reached :=
  ⟨rfl, fun _ _ _ => rfl⟩

/-- To put a block in its own place changes nothing. -/
theorem replace_self (h : memory.blocks[place]? = some block) :
    memory.replace place block = memory := by
  obtain ⟨hlt, rfl⟩ := List.getElem?_eq_some_iff.1 h
  rw [replace, List.set_getElem_self]

theorem byteAt?_replace_of_ne {other : Nat} (h : other ≠ place) (memory : Memory) (block : Block)
    (i : Nat) : (memory.replace place block).byteAt? other i = memory.byteAt? other i := by
  rw [byteAt?, replace, List.getElem?_set_ne h.symm]
  rfl

theorem byteAt?_of_getElem? (h : memory.blocks[place]? = some block) (i : Nat) :
    memory.byteAt? place i = block.bytes[i]? := by
  rw [byteAt?, h]
  rfl

/-- A block in the place of one of the same name, start and size changes the bytes of that block
only, and of these only those that are different. -/
theorem changedOnly_replace (h : memory.blocks[place]? = some block) {changed : Block}
    (hshape : changed.shape = block.shape) {reached : Nat → Nat → Prop}
    (hframe : ∀ i, ¬ reached place i → changed.bytes[i]? = block.bytes[i]?) :
    memory.ChangedOnly (memory.replace place changed) reached where
  shapes_eq := by
    have hself := congrArg Memory.shapes (replace_self h)
    simp only [shapes, replace, List.map_set] at hself ⊢
    rw [hshape, hself]
  frame := by
    intro other i hi
    by_cases hother : other = place
    · subst hother
      have hlt := (List.getElem?_eq_some_iff.1 h).1
      have hat : (memory.replace other changed).blocks[other]? = some changed :=
        List.getElem?_set_self hlt
      rw [byteAt?_of_getElem? h, byteAt?_of_getElem? hat, hframe i hi]
    · exact byteAt?_replace_of_ne hother memory changed i

/-- A write into the block at a place changes the bytes it covers only. -/
theorem changedOnly_put (h : memory.blocks[place]? = some block) (offset : UInt64)
    (data : List UInt8) :
    memory.ChangedOnly (memory.replace place (block.put offset data).2)
      fun other i => other = place ∧ Covers (offset, data) i :=
  changedOnly_replace h (block.shape_put offset data) fun _ hi =>
    block.frame_put offset data fun hcovers => hi ⟨rfl, hcovers⟩

/-- A write that is refused changes nothing. -/
theorem replace_put_of_error (h : memory.blocks[place]? = some block) {offset : UInt64}
    {data : List UInt8} {fault : Fault} (hput : (block.put offset data).1 = .error fault) :
    memory.replace place (block.put offset data).2 = memory := by
  rw [block.put_of_error offset data hput, replace_self h]

end Memory

end LoopTable
