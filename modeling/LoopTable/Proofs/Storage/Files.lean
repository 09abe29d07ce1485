import LoopTable.Proofs.Storage.FileTree
import LoopTable.Storage.Files

/-!
# Whole files

What comes of reading and writing whole files: the answer, and the state after it. In any storage,
to read a text, a table or settings is to read a file and to look at what was read
(`Storage.run_readText_of_read` and the lemmas behind it). If the storage is a tree of files, then
what is read is what stands in the tree, and a file is made where there is a place for it. With
`Storage.run_bind_eq` these equations take a longer job on storage apart, one step at a time.
-/

namespace LoopTable

/-- Every text is the text of its own bytes. -/
theorem textOf_toUTF8 (text : String) : textOf text.toUTF8.data = .ok text := by
  have hvalid : String.fromUTF8? ⟨text.toUTF8.data⟩ = some text := dif_pos text.isValidUTF8
  rw [textOf, hvalid]

/-- Only the bytes of a text are text. -/
theorem textOf_eq_ok_iff {content : Bytes} {text : String} :
    textOf content = .ok text ↔ content = text.toUTF8.data := by
  constructor
  · intro h
    unfold textOf at h
    split at h
    · next valid hvalid =>
      unfold String.fromUTF8? at hvalid
      split at hvalid
      · obtain rfl := Except.ok.inj h
        obtain rfl := Option.some.inj hvalid
        rfl
      · cases hvalid
    · cases h
  · rintro rfl
    exact textOf_toUTF8 text

/-- A text is known by its bytes. -/
theorem eq_of_toUTF8_data_eq {text other : String} (h : text.toUTF8.data = other.toUTF8.data) :
    text = other :=
  Except.ok.inj ((textOf_toUTF8 text).symm.trans (textOf_eq_ok_iff.2 h))

namespace Storage

section State

variable {σ : Type} {st st' : σ}

/-- Whatever is done ends with an answer and a state. -/
theorem exists_run {α : Type} (x : StateM σ α) (st : σ) : ∃ a st', x.run st = (a, st') :=
  ⟨_, _, rfl⟩

/-- What is done first is known, and leaves its state to what is done then. -/
theorem run_bind_eq {α β : Type} {x : StateM σ α} {a : α} (h : x.run st = (a, st'))
    (f : α → StateM σ β) : (x >>= f).run st = (f a).run st' := by
  rw [StateT.run_bind, h]
  rfl

/-! ## Reading from any storage -/

variable {s : Storage (StateM σ)} {path : String} {found : Except Fault Bytes}

theorem run_readText_of_read (h : (s.read path).run st = (found, st')) :
    (s.readText path).run st = (found >>= textOf, st') := by
  rw [readText, run_bind_eq h]
  cases found <;> rfl

theorem run_readSettings_of_read (h : (s.read path).run st = (found, st')) :
    (s.readSettings path).run st = (found >>= textOf >>= Settings.ofText, st') := by
  rw [readSettings, run_bind_eq (run_readText_of_read h)]
  cases found >>= textOf <;> rfl

theorem run_readTable_of_read (h : (s.read path).run st = (found, st')) :
    (s.readTable path).run st =
      (found >>= fun table =>
        if Word.isWhole table then .ok table else .error .truncatedTable, st') := by
  rw [readTable, run_bind_eq h]
  cases found <;> rfl

/-! ## Assembling in any storage -/

section Assemble

variable {source image text : String} {fault : Fault}

/-- Without a source text, nothing is done after reading. -/
theorem run_assembleFile_of_error (h : (s.readText source).run st = (.error fault, st'))
    (image : String) : (s.assembleFile source image).run st = ((.error fault, []), st') := by
  rw [assembleFile, run_bind_eq h]
  rfl

/-- The image of the source text is written last. -/
theorem run_assembleFile_of_text {made : Except Fault Unit} {st'' : σ}
    (h : (s.readText source).run st = (.ok text, st'))
    (hwrite : (s.write image (assemble text.toList).toArray).run st' = (made, st'')) :
    (s.assembleFile source image).run st =
      match made with
      | .error fault => ((.error fault, []), st'')
      | .ok () =>
        ((.ok (assemble text.toList).toArray.size,
          [.assembled (assemble text.toList).toArray.size source]), st'') := by
  rw [assembleFile, run_bind_eq h]
  refine (run_bind_eq hwrite _).trans ?_
  cases made <;> rfl

end Assemble

end State

/-! ## Reading from a tree -/

section Read

variable (files : FileTree) (path : String)

theorem run_read : (tree.read path).run files = (files.read path, files) := rfl

theorem run_readImage : (tree.readImage path).run files = (files.read path, files) := rfl

theorem run_readText :
    (tree.readText path).run files = (files.read path >>= textOf, files) :=
  run_readText_of_read (run_read files path)

theorem run_readSettings :
    (tree.readSettings path).run files =
      (files.read path >>= textOf >>= Settings.ofText, files) :=
  run_readSettings_of_read (run_read files path)

theorem run_readTable :
    (tree.readTable path).run files =
      (files.read path >>= fun table =>
        if Word.isWhole table then .ok table else .error .truncatedTable, files) :=
  run_readTable_of_read (run_read files path)

end Read

/-! ## Writing -/

section Write

variable {files : FileTree} {path : String}

theorem run_write_of_placeFor {place : Place} (h : files.placeFor path = .ok place)
    (content : Bytes) :
    (tree.write path content).run files = (.ok (), files.set place (.file content)) := by
  have hwrite : files.write path content = .ok (files.set place (.file content)) := by
    rw [FileTree.write, h]
    rfl
  simp only [tree, StateT.run, hwrite]

/-- Where no file can be made, nothing is. -/
theorem run_write_of_error {fault : Fault} (h : files.placeFor path = .error fault)
    (content : Bytes) : (tree.write path content).run files = (.error fault, files) := by
  have hwrite : files.write path content = .error fault := by
    rw [FileTree.write, h]
    rfl
  simp only [tree, StateT.run, hwrite]

/-- A table of whole words is written as it is. -/
theorem writeTable_of_even {m : Type → Type} [Monad m] (s : Storage m) (path : String)
    {table : Bytes} (h : table.size % 2 = 0) : s.writeTable path table = s.write path table :=
  if_pos (beq_iff_eq.2 h)

/-- The image of a source text is written where there is a place for it. -/
theorem run_assembleFile {source image text : String} {imagePlace : Place}
    (hsource : files.read source = .ok text.toUTF8.data)
    (himage : files.placeFor image = .ok imagePlace) :
    let bytes := (assemble text.toList).toArray
    (tree.assembleFile source image).run files =
      ((.ok bytes.size, [.assembled bytes.size source]),
        files.set imagePlace (.file bytes)) := by
  intro bytes
  have htext : files.read source >>= textOf = .ok text := by
    rw [hsource]
    exact textOf_toUTF8 text
  have hread := run_readText files source
  rw [htext] at hread
  exact run_assembleFile_of_text hread (run_write_of_placeFor himage _)

end Write

end Storage

end LoopTable
