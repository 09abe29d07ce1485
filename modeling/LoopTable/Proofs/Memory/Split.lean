import LoopTable.Proofs.Memory.Names

/-!
# Two blocks picked for an analysis

`Memory.split` looks for the last block of a name, `Memory.get?` and `Memory.put` for the first.
In a memory whose blocks have different names both find the same block, so the two blocks of a split
are those that the names tell (`split_picks_named_blocks`).

* `Memory.Addressed.last?_eq` is the step from the first block of a name to the last one.
* `Memory.WrittenAt` says what a write into the block of a name does to a memory: what it answers,
  what is found under the name behind it, and that every other block stays.
-/

namespace LoopTable

namespace Memory

variable {memory : Memory} {name other : String} {place : Nat} {block : Block}

/-! ## Blocks and their names -/

/-- No block is found under a name that no block has. -/
theorem get?_eq_none_iff : memory.get? name = none ↔ name ∉ memory.names := by
  simp [get?, names]

theorem last?_eq_none_iff {blocks : List Block} :
    last? name blocks = none ↔ name ∉ blocks.map Block.name := by
  induction blocks with
  | nil => simp [last?]
  | cons first blocks ih =>
    rw [last?, List.map_cons, List.mem_cons]
    cases hrest : last? name blocks with
    | some found =>
      have hmem : name ∈ blocks.map Block.name := by
        rw [hrest] at ih
        simpa using ih
      simp [hmem]
    | none =>
      rw [hrest] at ih
      by_cases hfirst : first.name = name
      · simp [hfirst]
      · simpa [hfirst, Ne.symm hfirst] using ih

/-- The block that is found under a name is the one that the name addresses. -/
theorem get?_eq_some_iff :
    memory.get? name = some block ↔ ∃ place, memory.Addressed name place block := by
  rw [get?, List.find?_eq_some_iff_getElem]
  constructor
  · rintro ⟨hname, place, hlt, rfl, hfirst⟩
    refine ⟨place, List.getElem?_eq_getElem hlt, beq_iff_eq.1 hname, ?_⟩
    intro p hp b hb hbname
    obtain ⟨hlt', rfl⟩ := List.getElem?_eq_some_iff.1 hb
    simpa [hbname] using hfirst p hp
  · rintro ⟨place, hat, hname, hfirst⟩
    obtain ⟨hlt, rfl⟩ := List.getElem?_eq_some_iff.1 hat
    refine ⟨beq_iff_eq.2 hname, place, hlt, rfl, ?_⟩
    intro p hp
    simpa using hfirst p hp _ (List.getElem?_eq_getElem (Nat.lt_trans hp hlt))

/-- Where the names are different, each of them has one place. -/
theorem place_unique (hnames : memory.names.Nodup) {p q : Nat} {b c : Block}
    (hb : memory.blocks[p]? = some b) (hc : memory.blocks[q]? = some c) (hname : b.name = c.name) :
    p = q := by
  have hp : memory.names[p]? = some b.name := by simp [names, hb]
  have hq : memory.names[q]? = some c.name := by simp [names, hc]
  have hlt := (List.getElem?_eq_some_iff.1 hp).1
  exact (List.getElem?_inj hlt hnames).1 (by rw [hp, hq, hname])

/-- Where the names are different, the first block of a name is the last one. -/
theorem Addressed.last?_eq (h : memory.Addressed name place block) (hnames : memory.names.Nodup) :
    last? name memory.blocks = some (place, block) := by
  cases hlast : last? name memory.blocks with
  | none =>
    have hmem : block ∈ memory.blocks := List.mem_of_getElem? h.at_place
    exact absurd (List.mem_map.2 ⟨block, hmem, h.name_eq⟩) (last?_eq_none_iff.1 hlast)
  | some found =>
    obtain ⟨p, b⟩ := found
    obtain ⟨hat, hname⟩ := getElem?_of_last? hlast
    obtain rfl := place_unique hnames hat h.at_place (hname.trans h.name_eq.symm)
    rw [Option.some.inj (hat.symm.trans h.at_place)]

/-- A name that is not found is not found from behind either. -/
theorem last?_eq_none_of_get? (h : memory.get? name = none) : last? name memory.blocks = none :=
  last?_eq_none_iff.2 (get?_eq_none_iff.1 h)

/-! ## Writes -/

/-- A write by name is a write into the block that the name addresses. -/
theorem Addressed.put_eq (h : memory.Addressed name place block) (offset : UInt64)
    (data : List UInt8) :
    memory.put name offset data =
      (some (block.put offset data).1, memory.replace place (block.put offset data).2) := by
  have hget : memory.get? name = some block := get?_eq_some_iff.2 ⟨place, h⟩
  have hplace : memory.blocks.findIdx? (·.name == name) = some place := by
    obtain ⟨hlt, rfl⟩ := List.getElem?_eq_some_iff.1 h.at_place
    rw [List.findIdx?_eq_some_iff_getElem]
    refine ⟨hlt, beq_iff_eq.2 h.name_eq, ?_⟩
    intro p hp
    simpa using h.first p hp _ (List.getElem?_eq_getElem (Nat.lt_trans hp hlt))
  simp only [put, hplace, hget]

section Replace

variable {changed : Block}

/-- A block that keeps its name leaves all names as they were. -/
theorem names_replace (hat : memory.blocks[place]? = some block)
    (hname : changed.name = block.name) : (memory.replace place changed).names = memory.names := by
  have hself := congrArg names (replace_self hat)
  simp only [names, replace, List.map_set] at hself ⊢
  rw [hname, hself]

/-- A block that is changed under its name is found there. -/
theorem Addressed.get?_replace (h : memory.Addressed name place block)
    (hname : changed.name = block.name) :
    (memory.replace place changed).get? name = some changed := by
  have hlt := (List.getElem?_eq_some_iff.1 h.at_place).1
  refine get?_eq_some_iff.2 ⟨place, List.getElem?_set_self hlt, hname.trans h.name_eq, ?_⟩
  intro p hp b hb
  rw [replace, List.getElem?_set_ne (Nat.ne_of_gt hp)] at hb
  exact h.first p hp b hb

/-- What is found under another name stays. -/
theorem Addressed.get?_replace_of_ne (h : memory.Addressed name place block)
    (hname : changed.name = block.name) (hother : other ≠ name) :
    (memory.replace place changed).get? other = memory.get? other := by
  cases hget : memory.get? other with
  | none =>
    rw [get?_eq_none_iff] at hget ⊢
    rwa [names_replace h.at_place hname]
  | some found =>
    obtain ⟨p, hfound⟩ := get?_eq_some_iff.1 hget
    have hblock : block.name ≠ other := fun heq => hother (heq.symm.trans h.name_eq)
    have hne : place ≠ p := by
      rintro rfl
      rw [Option.some.inj (h.at_place.symm.trans hfound.at_place)] at hblock
      exact hblock hfound.name_eq
    refine get?_eq_some_iff.2 ⟨p, ?_, hfound.name_eq, ?_⟩
    · rw [replace, List.getElem?_set_ne hne]
      exact hfound.at_place
    · intro q hq b hb
      by_cases hqplace : place = q
      · subst hqplace
        rw [replace, List.getElem?_set_self (List.getElem?_eq_some_iff.1 h.at_place).1] at hb
        rw [← Option.some.inj hb, hname]
        exact hblock
      · rw [replace, List.getElem?_set_ne hqplace] at hb
        exact hfound.first q hq b hb

end Replace

/-- What a write into the block at a place does to a memory in which a name addresses that block. -/
structure WrittenAt (memory : Memory) (name : String) (place : Nat) (block : Block)
    (offset : UInt64) (data : List UInt8) (answer : Except Fault Unit) (after : Memory) : Prop where
  /-- The write is accepted if it lies inside the block. -/
  ok_iff : answer = .ok () ↔ offset.toNat + data.length ≤ block.bytes.size
  /-- If not, nothing is changed. -/
  refused : answer ≠ .ok () → after = memory
  /-- If it is, the block under the name has the bytes of the write, and its own elsewhere. -/
  found : answer = .ok () → ∃ written, after.get? name = some written ∧
    written.shape = block.shape ∧
    (∀ (i : Nat) (byte : UInt8) (position : UInt64), data[i]? = some byte →
      position.toNat = offset.toNat + i → written.bytes.read position = .ok byte) ∧
    ∀ position : UInt64, ¬ Covers (offset, data) position.toNat →
      written.bytes.read position = block.bytes.read position
  /-- Every other block stays in its place. -/
  others : ∀ p, p ≠ place → after.blocks[p]? = memory.blocks[p]?
  /-- Under every other name the same block is found. -/
  get?_eq : ∀ other, other ≠ name → after.get? other = memory.get? other

end Memory

namespace Block

variable {block : Block} {offset : UInt64} {data : List UInt8}

/-- A block accepts the writes that lie inside it. -/
theorem put_eq_ok_iff :
    (block.put offset data).1 = .ok () ↔ offset.toNat + data.length ≤ block.bytes.size := by
  rcases Nat.lt_or_ge block.bytes.size (offset.toNat + data.length) with hlt | hle
  · simp [put, Bytes.put_of_lt hlt, Nat.not_le.2 hlt]
  · simp [put, Bytes.put_of_le hle, hle]

/-- The bytes of a write are read back. -/
theorem read_put (h : offset.toNat + data.length ≤ block.bytes.size) {i : Nat} {byte : UInt8}
    {position : UInt64} (hbyte : data[i]? = some byte)
    (hposition : position.toNat = offset.toNat + i) :
    (block.put offset data).2.bytes.read position = .ok byte := by
  have hlt := (List.getElem?_eq_some_iff.1 hbyte).1
  rw [Bytes.read_eq_ok_iff, hposition]
  simp only [put, Bytes.put_of_le h]
  rw [Bytes.getElem?_overwrite _ _ h, if_pos (by omega), Nat.add_sub_cancel_left, hbyte]

/-- Outside of a write, a block answers as before. -/
theorem read_put_of_not_covers {position : UInt64} (h : ¬ Covers (offset, data) position.toNat) :
    (block.put offset data).2.bytes.read position = block.bytes.read position := by
  have hsize : (block.put offset data).2.bytes.size = block.bytes.size :=
    Writable.honest_block.confined.size_put offset data block
  unfold Bytes.read
  rw [block.frame_put offset data h, hsize]

end Block

namespace Memory

variable {memory : Memory} {source target name : String} {place : Nat} {block read written : Block}

theorem Addressed.writtenAt (h : memory.Addressed name place block) (offset : UInt64)
    (data : List UInt8) :
    memory.WrittenAt name place block offset data (block.put offset data).1
      (memory.replace place (block.put offset data).2) where
  ok_iff := Block.put_eq_ok_iff
  refused := by
    intro hrefused
    cases hanswer : (block.put offset data).1 with
    | ok => exact absurd hanswer hrefused
    | error fault => exact replace_put_of_error h.at_place hanswer
  found := by
    intro hok
    have hfits := Block.put_eq_ok_iff.1 hok
    exact ⟨_, h.get?_replace rfl, block.shape_put offset data,
      fun _ _ _ => Block.read_put hfits, fun _ => Block.read_put_of_not_covers⟩
  others := by
    intro p hp
    rw [replace, List.getElem?_set_ne hp.symm]
  get?_eq := fun _ hother => h.get?_replace_of_ne rfl hother

/-! ## Splits -/

/-- Where the names are different, a split picks the blocks that its two names address. -/
theorem split_of_addressed (hnames : memory.names.Nodup) (hne : source ≠ target) {readPlace : Nat}
    (hread : memory.Addressed source readPlace read)
    (hwritten : memory.Addressed target place written) :
    memory.split source target = .ok ⟨read, place, written⟩ := by
  simp only [Memory.split, if_neg hne, hread.last?_eq hnames, hwritten.last?_eq hnames]

end Memory

/-- **Splits and names.** Let the blocks of a memory have different names. A split refuses one name
given twice, whether there is such a block or not; then it misses the block to read, then the block
to write. Otherwise it picks the two blocks that are found under the names, in whatever order they
stand, and to write into the second is to write by its name: if the write lies inside the block, its
bytes are read back under the name, and every other block stays as it was. -/
theorem split_picks_named_blocks {memory : Memory} (hnames : memory.names.Nodup)
    (source target : String) :
    (source = target → memory.split source target = .error (.sharedBlock target)) ∧
    (source ≠ target → memory.get? source = none →
      memory.split source target = .error (.missingBlock source)) ∧
    (source ≠ target → memory.get? source ≠ none → memory.get? target = none →
      memory.split source target = .error (.missingBlock target)) ∧
    ∀ read written, source ≠ target → memory.get? source = some read →
      memory.get? target = some written →
      ∃ place, memory.Addressed target place written ∧
        memory.split source target = .ok ⟨read, place, written⟩ ∧
        ∀ offset data,
          let put := memory.putTarget ⟨read, place, written⟩ offset data
          memory.put target offset data = (some put.1, put.2) ∧
            memory.WrittenAt target place written offset data put.1 put.2 := by
  refine ⟨fun heq => ?_, fun hne hsource => ?_, fun hne hsource htarget => ?_,
    fun read written hne hsource htarget => ?_⟩
  · rw [Memory.split, if_pos heq]
  · simp only [Memory.split, if_neg hne, Memory.last?_eq_none_of_get? hsource]
  · obtain ⟨read, hread⟩ := Option.ne_none_iff_exists'.1 hsource
    obtain ⟨readPlace, haddressed⟩ := Memory.get?_eq_some_iff.1 hread
    simp only [Memory.split, if_neg hne, haddressed.last?_eq hnames,
      Memory.last?_eq_none_of_get? htarget]
  · obtain ⟨readPlace, hread⟩ := Memory.get?_eq_some_iff.1 hsource
    obtain ⟨place, hwritten⟩ := Memory.get?_eq_some_iff.1 htarget
    refine ⟨place, hwritten, Memory.split_of_addressed hnames hne hread hwritten, ?_⟩
    intro offset data put
    exact ⟨hwritten.put_eq offset data, hwritten.writtenAt offset data⟩

/-- A table that stands before its image, with another block between them, is picked and written. -/
theorem split_picks_named_blocks_table_first :
    let table := Block.zeroed tableBlockName 2 4
    let image : Block := ⟨imageBlockName, 0, #[6, 7]⟩
    let memory : Memory := ⟨[table, .zeroed "spare" 6 1, image]⟩
    memory.names.Nodup ∧ imageBlockName ≠ tableBlockName ∧
      memory.get? imageBlockName = some image ∧ memory.get? tableBlockName = some table ∧
      ∃ place, memory.split imageBlockName tableBlockName = .ok ⟨image, place, table⟩ ∧
        ∃ written, (memory.putTarget ⟨image, place, table⟩ 2 [0, 1]).2.get? tableBlockName =
            some written ∧
          written.bytes.read 3 = .ok 1 := by
  intro table image memory
  have hnames : memory.names.Nodup := by decide
  have hne : imageBlockName ≠ tableBlockName := by decide
  have hsource : memory.get? imageBlockName = some image := by decide
  have htarget : memory.get? tableBlockName = some table := by decide
  obtain ⟨-, -, -, hpicked⟩ := split_picks_named_blocks hnames imageBlockName tableBlockName
  obtain ⟨place, -, hsplit, hput⟩ := hpicked image table hne hsource htarget
  have hwritten := (hput 2 [0, 1]).2
  obtain ⟨written, hfound, -, hread, -⟩ := hwritten.found (hwritten.ok_iff.2 (by decide))
  exact ⟨hnames, hne, hsource, htarget, place, hsplit, written, hfound, hread 1 1 3 rfl rfl⟩

end LoopTable
