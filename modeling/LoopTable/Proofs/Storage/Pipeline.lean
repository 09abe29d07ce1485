import LoopTable.Proofs.Analysis.Layout
import LoopTable.Proofs.Nesting.Source
import LoopTable.Proofs.Storage.Files

/-!
# From a source text to a table on storage

`Storage.tableOfSource` takes a source text through all stages: it is assembled into a file, the
image is read back, laid out and analysed, and the table is written to a file and read back.

* `run_tableOfSource`: on a file tree that is ready for it, the stages together do what
  `branchTable` does to the image of the text.
* `tableOfSource_iff_nested`: they succeed exactly if the brackets of the text are nested and none
  stands too far behind, the table then tells where each instruction leads to (`TellsText`), and
  comments have no part in it.
-/

namespace LoopTable

/-! ## The steps in a row -/

/-- The table that an analysis with the standard settings fills for an image, if it succeeds. -/
def analyzedTable? {μ : Type} (processor : String) (m : Monitor μ) (monitor : μ) (image : Bytes) :
    Option Bytes :=
  let analysis := analyze .standard m (.ofImage processor image image.size) monitor .empty
  match analysis.result, analysis.program.memory.get? tableBlockName with
  | .ok true, some block => some block.bytes
  | _, _ => none

/-- From a source text to its table: the text is assembled, the image read back and analysed, and
the table written and read back. If every step succeeds, there are the number of instructions and
the table. -/
def Storage.tableOfSource {n : Type → Type} [Monad n] (s : Storage n) {μ : Type}
    (processor : String) (m : Monitor μ) (monitor : μ) (source image table : String) :
    n (Option (Nat × Bytes)) := do
  let (.ok count, _) ← s.assembleFile source image | return none
  let .ok bytes ← s.readImage image | return none
  let some filled := analyzedTable? processor m monitor bytes | return none
  let .ok () ← s.writeTable table filled | return none
  let .ok stored ← s.readTable table | return none
  return some (count, stored)

/-- Files to begin with: the source is one that holds a text, and files can be made for the image
and for the table. -/
structure FileTree.Ready (files : FileTree) (source image table text : String) : Prop where
  /-- The source holds the text. -/
  source_eq : files.read source = .ok text.toUTF8.data
  /-- There is a place for the image. -/
  image_place : ∃ place, files.placeFor image = .ok place
  /-- There is a place for the table. -/
  table_place : ∃ place, files.placeFor table = .ok place

section Run

variable {μ : Type} {m : Monitor μ} {monitor : μ} {files : FileTree}
  {source image table text : String}

theorem analyzedTable?_eq {bytes : Bytes} (hsize : 2 * bytes.size < UInt64.size)
    (hquiet : m.Quiet (.ofNat bytes.size) monitor) (processor : String) :
    analyzedTable? processor m monitor bytes = (branchTable bytes).toOption := by
  have hmakes : (analyze .standard m (.ofImage processor bytes bytes.size) monitor .empty).Makes
      tableBlockName .empty (branchTable bytes) :=
    @makes_analyze μ .standard bytes m monitor (by decide) hsize hquiet processor .empty
  unfold analyzedTable?
  generalize analyze .standard m _ monitor .empty = analysis at hmakes ⊢
  generalize branchTable bytes = made at hmakes ⊢
  cases hmakes with
  | table hresult hget hbytes =>
    simp only [hresult, hget, hbytes]
    rfl
  | failure hresult _ =>
    simp only [hresult]
    rfl

/-- On files that are ready, all stages together give the table of the image of the text, if it
has one. -/
theorem run_tableOfSource (hready : files.Ready source image table text)
    (hsize : 2 * (assemble text.toList).length < UInt64.size)
    (hquiet : m.Quiet (.ofNat (assemble text.toList).length) monitor) (processor : String) :
    ((Storage.tree.tableOfSource processor m monitor source image table).run files).1 =
      (branchTable (assemble text.toList).toArray).toOption.map
        fun stored => ((assemble text.toList).length, stored) := by
  obtain ⟨hsource, ⟨imagePlace, himage⟩, ⟨tablePlace, htable⟩⟩ := hready
  have hassembled := Storage.run_assembleFile hsource himage
  have hwritten := FileTree.written_set himage (assemble text.toList).toArray
  have hfilled : analyzedTable? processor m monitor (assemble text.toList).toArray =
      (branchTable (assemble text.toList).toArray).toOption :=
    analyzedTable?_eq hsize hquiet processor
  rw [Storage.tableOfSource, Storage.run_bind_eq hassembled]
  dsimp only
  rw [Storage.run_bind_eq (Storage.run_readImage _ image), hwritten.read_eq]
  dsimp only
  rw [hfilled]
  cases hbranch : branchTable (assemble text.toList).toArray with
  | error cause => rfl
  | ok stored =>
    have hsmall : (assemble text.toList).toArray.size < UInt64.size := by
      rw [List.size_toArray]
      omega
    have hstored : stored.size = 2 * (assemble text.toList).length :=
      size_of_branchTable hsmall hbranch
    have heven : stored.size % 2 = 0 := by omega
    have hwhole : Word.isWhole stored = true := beq_iff_eq.2 heven
    -- the image took the place of no directory, so there still is one for the table
    have hplace := hwritten.directories.placeFor_eq htable
    have hread := (FileTree.written_set hplace stored).read_eq
    dsimp only [Except.toOption]
    rw [Storage.writeTable_of_even _ _ heven,
      Storage.run_bind_eq (Storage.run_write_of_placeFor hplace stored)]
    dsimp only
    rw [Storage.run_bind_eq (Storage.run_readTable _ table), hread]
    dsimp only [bind, Except.bind]
    rw [if_pos hwhole]
    rfl

end Run

/-! ## What the table tells -/

/-- The table tells where each instruction of a text leads to, and nothing else. -/
structure TellsText (chars : List Char) (table : Bytes) : Prop where
  /-- There is one word for each instruction. -/
  size_eq : table.size = 2 * chars.length
  /-- It tells where the instruction leads to. -/
  word_eq : ∀ (a : UInt64) (v : Nat), Leads chars a.toNat v →
    (Word.decode? table a).map UInt16.toNat = some v
  /-- Every instruction leads somewhere or has the word zero. -/
  total : ∀ a < chars.length, ∃ v, Leads chars a v
  /-- There are no other words. -/
  decode?_eq_none : ∀ a : UInt64, chars.length ≤ a.toNat → Word.decode? table a = none

theorem tellsText_of_branchTable {chars : List Char} {stored : Bytes}
    (hsize : 2 * chars.length < UInt64.size)
    (h : branchTable (chars.map code).toArray = .ok stored) : TellsText chars stored := by
  have hlength : (chars.map code).toArray.size = chars.length := by simp
  obtain ⟨hbalanced, -, htable⟩ := (branchTable_eq_ok_iff (hlength.symm ▸ hsize)).1 h
  have hwords : stored.size = 2 * chars.length := by rw [htable.size_eq, List.length_map]
  refine ⟨hwords, fun a v hleads => ?_, fun a ha => ?_, fun a ha => ?_⟩
  · have hword := htable.words_eq (by rw [List.length_map]; omega)
      ((leads_iff_slot chars a.toNat v).1 hleads)
    rwa [Bytes.words, UInt64.ofNat_toNat] at hword
  · obtain ⟨v, hslot⟩ := hbalanced.exists_slot 0 (by rwa [List.length_map])
    exact ⟨v, (leads_iff_slot chars a v).2 hslot⟩
  · rw [Word.decode?, Array.getElem?_eq_none (by omega)]
    rfl

theorem exists_branchTable_map_code_iff {chars : List Char}
    (hsize : 2 * chars.length < UInt64.size) :
    (∃ stored, branchTable (chars.map code).toArray = .ok stored) ↔
      Nested chars ∧ ∀ i, chars[i]? = some ']' → i < 0xFFFF := by
  rw [exists_branchTable_iff (by rwa [List.size_toArray, List.length_map]), balanced_map_code_iff]
  simp only [List.getElem?_toArray, getElem?_map_code_eq_close_iff]

/-- **From text to table.** Let a source file hold a text with room for its image and its table, and
let no poll ask to stop. Then the stages from the text to the table that is read back all succeed
exactly if the brackets of the text are nested and no closing one has number 65535 or above. There
are then as many instructions as instruction characters, and the table tells where each leads to.

Another text with the same instruction characters gives the same, whatever comments it has, wherever
it is stored and whoever watches. -/
theorem tableOfSource_iff_nested {μ : Type} {m : Monitor μ} {monitor : μ} {files : FileTree}
    {source image table text : String} (hready : files.Ready source image table text)
    (hsize : 2 * (instructionChars text.toList).length < UInt64.size)
    (hquiet : m.Quiet (.ofNat (instructionChars text.toList).length) monitor)
    (processor : String) :
    let chars := instructionChars text.toList
    let result := ((Storage.tree.tableOfSource processor m monitor source image table).run files).1
    ((∃ count stored, result = some (count, stored)) ↔
      Nested chars ∧ ∀ i, chars[i]? = some ']' → i < 0xFFFF) ∧
    (∀ count stored, result = some (count, stored) →
      count = chars.length ∧ TellsText chars stored) ∧
    ∀ {μ' : Type} (m' : Monitor μ') (monitor' : μ') (files' : FileTree)
      (source' image' table' text' : String), files'.Ready source' image' table' text' →
      instructionChars text'.toList = chars → m'.Quiet (.ofNat chars.length) monitor' →
      ((Storage.tree.tableOfSource processor m' monitor' source' image' table').run files').1 =
        result := by
  intro chars result
  have hrun : ∀ {μ' : Type} {m' : Monitor μ'} {monitor' : μ'} {files' : FileTree}
      {source' image' table' text' : String}, files'.Ready source' image' table' text' →
      instructionChars text'.toList = chars → m'.Quiet (.ofNat chars.length) monitor' →
      ((Storage.tree.tableOfSource processor m' monitor' source' image' table').run files').1 =
        (branchTable (chars.map code).toArray).toOption.map fun stored =>
          (chars.length, stored) := by
    intro μ' m' monitor' files' source' image' table' text' hready' hchars hquiet'
    have himage : assemble text'.toList = chars.map code := by rw [assemble_eq_map_code, hchars]
    have hlength : (assemble text'.toList).length = chars.length := by rw [himage, List.length_map]
    have hresult := run_tableOfSource hready' (hlength.symm ▸ hsize) (hlength.symm ▸ hquiet')
      processor
    rwa [himage, List.length_map] at hresult
  have hresult : result = _ := hrun hready rfl hquiet
  refine ⟨?_, fun count stored h => ?_, fun m' monitor' files' source' image' table' text' hready'
    hchars hquiet' => (hrun hready' hchars hquiet').trans hresult.symm⟩
  · rw [← exists_branchTable_map_code_iff hsize, hresult]
    cases branchTable (chars.map code).toArray with
    | error cause => simp [Except.toOption]
    | ok stored => simp [Except.toOption]
  · rw [hresult] at h
    cases hbranch : branchTable (chars.map code).toArray with
    | error cause =>
      rw [hbranch] at h
      cases h
    | ok table =>
      rw [hbranch] at h
      obtain ⟨rfl, rfl⟩ := Prod.mk.inj (Option.some.inj h)
      exact ⟨rfl, tellsText_of_branchTable hsize hbranch⟩

/-- A loop among comments. -/
theorem tableOfSource_iff_nested_loop :
    let files : FileTree := ⟨[(["a"], .file "x[y-]".toUTF8.data)], []⟩
    files.Ready "a" "b" "c" "x[y-]" ∧ Monitor.silent.Quiet (.ofNat 3) () ∧
      ∃ stored,
        ((Storage.tree.tableOfSource processorName .silent () "a" "b" "c").run files).1 =
          some (3, stored) ∧ TellsText ['[', '-', ']'] stored := by
  intro files
  have hready : files.Ready "a" "b" "c" "x[y-]" := ⟨rfl, ⟨["b"], rfl⟩, ⟨["c"], rfl⟩⟩
  have hchars : instructionChars "x[y-]".toList = ['[', '-', ']'] := by decide
  have hquiet : Monitor.silent.Quiet (.ofNat 3) () := Monitor.quiet_silent _
  have hnested : Nested ['[', '-', ']'] := .loop (.other (by decide) (by decide))
  obtain ⟨hiff, htells, -⟩ := tableOfSource_iff_nested hready (by rw [hchars]; decide)
    (by rw [hchars]; exact hquiet) processorName
  rw [hchars] at hiff htells
  obtain ⟨count, stored, hresult⟩ := hiff.2 ⟨hnested, fun i hi => by
    have hlt : i < 3 := (List.getElem?_eq_some_iff.1 hi).1
    omega⟩
  obtain ⟨rfl, htext⟩ := htells count stored hresult
  exact ⟨hready, hquiet, stored, hresult, htext⟩

end LoopTable
